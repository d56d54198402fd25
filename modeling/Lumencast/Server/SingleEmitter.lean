import Lumencast.Foundation.Numbers
import Lumencast.Server.SceneCell

/-!
# Scenes with one emitter at a time

When at most one emission is in progress, the numbers handed out to emissions
are exactly the broadcast ones followed by the one in progress, in increasing
order. `EmissionStep` lists what a step can do to the scene and to the emission
in progress, and every invariant below is derived from it.

The facts a subscriber relies on are stated from a snapshot's point of view:
`pending since` lists the writes that are numbered above `since` or not numbered
yet, and `FoldsTo` says that replaying them over a state gives the store. A state
read late already contains some of them, which is harmless because the store
absorbs the writes of the emission in progress.
-/

namespace Lumencast.Server

open Foundation Protocol

variable {Text : Type}

namespace Emission

/-- The pairs that the emission writes. -/
def batch (e : Emission) : List (String × Value) := writes e.patches

/-- The emission has written the store and is not known to be numbered `since` or below. -/
def isPending (since : Nat) (e : Emission) : Bool :=
  match e.stage with
  | .write => false
  | .number => true
  | .push seq | .send seq => since < seq

/-- The record of an emission that is in the replay ring. -/
def record (e : Emission) : Option ReplayRecord :=
  match e.stage with
  | .send seq => some ⟨seq, e.patches, e.cause⟩
  | _ => none

end Emission

namespace DeltaPayload

def batch (p : DeltaPayload) : List (String × Value) := writes p.patches

def record (p : DeltaPayload) : ReplayRecord := ⟨p.seq, p.patches, p.cause⟩

end DeltaPayload

/-- What one step of the only emitter does to the scene and to its emission; a step
of anybody else leaves store, counter, ring and channel alone. -/
inductive EmissionStep : Scene Text → List Emission → Scene Text → List Emission → Prop
  | idle {s s' : Scene Text} {es : List Emission} (store : s'.store = s.store)
      (seq : s'.seq = s.seq) (tx : s'.tx = s.tx) (replay : s'.replay = s.replay) :
      EmissionStep s es s' es
  | start (s : Scene Text) (patches : List Patch) (cause : Option Cause) :
      EmissionStep s [] s [⟨patches, cause, .write⟩]
  | write (s : Scene Text) (patches : List Patch) (cause : Option Cause) :
      EmissionStep s [⟨patches, cause, .write⟩] (s.applyPatches patches)
        [⟨patches, cause, .number⟩]
  | number (s : Scene Text) (patches : List Patch) (cause : Option Cause) :
      EmissionStep s [⟨patches, cause, .number⟩] s.advanceSeq [⟨patches, cause, .push s.nextSeq⟩]
  | push (s : Scene Text) (patches : List Patch) (cause : Option Cause) (seq : Nat) :
      EmissionStep s [⟨patches, cause, .push seq⟩] (s.pushReplay ⟨seq, patches, cause⟩)
        [⟨patches, cause, .send seq⟩]
  | send (s : Scene Text) (patches : List Patch) (cause : Option Cause) (seq : Nat) :
      EmissionStep s [⟨patches, cause, .send seq⟩] (s.sendDelta ⟨seq, patches, cause⟩) []

namespace SceneCell

/-- The emissions in progress. -/
def inFlight (cell : SceneCell Text) : List Emission := cell.calls.map (·.2)

/-- At most one emission is in progress. -/
def Serial (cell : SceneCell Text) : Prop := cell.calls.length ≤ 1

/-- A step of a serial cell, unless a connection migrates off the scene. -/
theorem emissionStep {cell cell' : SceneCell Text} {a : SceneAction} (serial : cell.Serial)
    (serial' : cell'.Serial) (kept : a ≠ .change) (h : cell.step a = some cell') :
    EmissionStep cell.scene cell.inFlight cell'.scene cell'.inFlight := by
  cases a with
  | emit caller pairs cause =>
      obtain ⟨_, rfl | ⟨patches, _, rfl⟩⟩ := step_emit h
      · exact .idle rfl rfl rfl rfl
      · have empty : cell.calls = [] := by
          simpa [Serial] using serial'
        simpa [inFlight, empty] using .start cell.scene patches cause
  | progress caller =>
      obtain ⟨e, found, rfl⟩ := step_progress h
      obtain ⟨only, single⟩ : ∃ call, cell.calls = [call] := by
        cases calls : cell.calls with
        | nil => simp [emission, calls] at found
        | cons call rest =>
            have : rest = [] := by simpa [Serial, calls] using serial
            exact ⟨call, by rw [this]⟩
      have same : only = (caller, e) := by
        obtain ⟨_, member⟩ : ∃ k, k = caller ∧ (k, e) ∈ cell.calls :=
          ⟨caller, rfl, by
            obtain ⟨before, after, split, _⟩ := List.lookup_eq_some_iff.mp found
            simp [split]⟩
        rw [single] at member
        exact (List.mem_singleton.mp member.2).symm ▸ by simp [member.1]
      subst same
      have alone : cell.others caller = [] := by simp [others, single]
      obtain ⟨patches, cause, stage⟩ := e
      simp only [inFlight, single, alone, List.nil_append, List.map_cons, List.map_nil]
      cases stage with
      | write => exact .write cell.scene patches cause
      | number => exact .number cell.scene patches cause
      | push seq => exact .push cell.scene patches cause seq
      | send seq => exact .send cell.scene patches cause seq
  | change => exact absurd rfl kept
  | reject code message =>
      cases h
      exact .idle rfl rfl rfl rfl
  | withOperatorInputs specs =>
      cases h
      exact .idle rfl rfl rfl rfl

end SceneCell

/-! ## Numbers -/

/-- The numbers handed out to emissions: broadcast ones, then the one in progress. -/
def allocated (s : Scene Text) (es : List Emission) : List Nat :=
  s.tx.sent.map (·.seq) ++ es.filterMap Emission.number

/-- The records pushed to the ring, oldest first. -/
def pushed (s : Scene Text) (es : List Emission) : List ReplayRecord :=
  s.tx.sent.map DeltaPayload.record ++ es.filterMap Emission.record

/-- The batches of writes numbered above `since`, or not numbered yet. -/
def pending (since : Nat) (s : Scene Text) (es : List Emission) :
    List (List (String × Value)) :=
  (s.tx.sent.filter fun p => since < p.seq).map DeltaPayload.batch ++
    (es.filter (Emission.isPending since)).map Emission.batch

/-- The batches of writes from a position of the channel on, and of the emission that
has written the store and is not broadcast yet. -/
def written (start : Nat) (s : Scene Text) (es : List Emission) :
    List (List (String × Value)) :=
  (s.tx.sent.drop start).map DeltaPayload.batch ++
    (es.filter Emission.written).map Emission.batch

/-- Replaying all writes from a position of the channel on gives the store. -/
def RebuildsFrom (start : Nat) (state : State) (s : Scene Text) (es : List Emission) : Prop :=
  overwrite state (writesOf (written start s es)) = s.store

/-- Replaying the pending writes over `state` gives the store. -/
def FoldsTo (since : Nat) (state : State) (s : Scene Text) (es : List Emission) : Prop :=
  overwrite state (writesOf (pending since s es)) = s.store

namespace EmissionStep

variable {s s' : Scene Text} {es es' : List Emission}

/-- A step keeps the numbers handed out, or hands out the next one. -/
theorem allocated_eq (h : EmissionStep s es s' es') :
    (allocated s' es' = allocated s es ∧ s'.seq = s.seq) ∨
      (allocated s' es' = allocated s es ++ [s.nextSeq] ∧ s'.seq = s.nextSeq) := by
  cases h with
  | idle store seq tx replay => exact .inl ⟨by simp [allocated, tx], seq⟩
  | start | write | push => exact .inl ⟨rfl, rfl⟩
  | number => exact .inr ⟨by rw [allocated, allocated, List.append_assoc]; rfl, rfl⟩
  | send => exact .inl ⟨by simp [allocated, Emission.number, Scene.sendDelta], rfl⟩

/-- A step keeps the pending writes and the store, or appends one batch to both. -/
theorem pending_eq (h : EmissionStep s es s' es') {since : Nat} (reached : since ≤ s.seq) :
    (pending since s' es' = pending since s es ∧ s'.store = s.store) ∨
      ∃ batch, pending since s' es' = pending since s es ++ [batch] ∧
        s'.store = overwrite s.store batch := by
  cases h with
  | idle store seq tx replay => exact .inl ⟨by simp [pending, tx], store⟩
  | start => exact .inl ⟨rfl, rfl⟩
  | write patches cause =>
      exact .inr ⟨writes patches, by rw [pending, pending, List.append_assoc]; rfl, rfl⟩
  | number patches cause =>
      have above : since < s.nextSeq := Nat.lt_succ_of_le reached
      have numbered : Emission.isPending since ⟨patches, cause, .push s.nextSeq⟩ = true :=
        decide_eq_true above
      refine .inl ⟨?_, rfl⟩
      rw [pending, List.filter_cons_of_pos numbered]
      rfl
  | push patches cause seq =>
      refine .inl ⟨?_, rfl⟩
      have same : Emission.isPending since ⟨patches, cause, .push seq⟩ =
        Emission.isPending since ⟨patches, cause, .send seq⟩ := rfl
      simp only [pending, Scene.pushReplay, List.filter_cons, same]
      split <;> rfl
  | send patches cause seq =>
      refine .inl ⟨?_, rfl⟩
      by_cases above : since < seq <;>
        simp [pending, Emission.isPending, Emission.batch, Scene.sendDelta, above,
          DeltaPayload.batch]

/-- A step keeps the written batches and the store, or appends one batch to both. -/
theorem written_eq (h : EmissionStep s es s' es') {start : Nat}
    (within : start ≤ s.tx.sent.length) :
    (written start s' es' = written start s es ∧ s'.store = s.store) ∨
      ∃ batch, written start s' es' = written start s es ++ [batch] ∧
        s'.store = overwrite s.store batch := by
  cases h with
  | idle store seq tx replay => exact .inl ⟨by simp [written, tx], store⟩
  | start | number | push => exact .inl ⟨rfl, rfl⟩
  | write patches cause =>
      exact .inr ⟨writes patches, by rw [written, written, List.append_assoc]; rfl, rfl⟩
  | send patches cause seq =>
      refine .inl ⟨?_, rfl⟩
      simp [written, Emission.written, Emission.batch, Scene.sendDelta, DeltaPayload.batch,
        List.drop_append_of_le_length within]

/-- A channel only grows, by at most one delta. -/
theorem sent_eq (h : EmissionStep s es s' es') :
    s'.tx.capacity = s.tx.capacity ∧
      (s'.tx.sent = s.tx.sent ∨ ∃ p, s'.tx.sent = s.tx.sent ++ [p]) := by
  cases h with
  | idle store seq tx replay => exact ⟨by rw [tx], .inl (by rw [tx])⟩
  | send => exact ⟨rfl, .inr ⟨_, rfl⟩⟩
  | start | write | number | push => exact ⟨rfl, .inl rfl⟩

theorem seq_le (h : EmissionStep s es s' es') : s.seq ≤ s'.seq := by
  rcases h.allocated_eq with ⟨_, eq⟩ | ⟨_, eq⟩
  · exact Nat.le_of_eq eq.symm
  · rw [eq]
    exact Nat.le_succ _

/-- A step leaves the ring and its history, or pushes one record to both. -/
theorem pushed_eq (h : EmissionStep s es s' es') :
    (pushed s' es' = pushed s es ∧ s'.replay = s.replay) ∨
      ∃ record, pushed s' es' = pushed s es ++ [record] ∧
        s'.replay = s.replay.push record := by
  cases h with
  | idle store seq tx replay => exact .inl ⟨by simp [pushed, tx], replay⟩
  | start | write | number => exact .inl ⟨rfl, rfl⟩
  | push => exact .inr ⟨_, by rw [pushed, pushed, List.append_assoc]; rfl, rfl⟩
  | send =>
      exact .inl ⟨by simp [pushed, Emission.record, Scene.sendDelta, DeltaPayload.record], rfl⟩

end EmissionStep

/-- The invariant of a scene with one emitter at a time. -/
structure Sound (s : Scene Text) (es : List Emission) : Prop where
  single : es.length ≤ 1
  started : 1 ≤ s.seq
  increasing : (allocated s es).Pairwise (· < ·)
  numbered : ∀ n ∈ allocated s es, 1 ≤ n
  bounded : ∀ n ∈ allocated s es, n ≤ s.seq
  positive : 0 < s.replay.cap
  window : s.replay.IsWindow (pushed s es)
  /-- The writes of the emission in progress are visible. -/
  visible : Absorbs s.store (writesOf ((es.filter Emission.written).map Emission.batch))

/-- A scene is sound before its first emission, whatever it was seeded with. -/
theorem Sound.fresh {s : Scene Text} (seq : s.seq = 1)
    (tx : s.tx = Broadcast.new broadcastCapacity)
    (replay : s.replay = ReplayBuffer.new defaultReplayBufferSize) : Sound s [] where
  single := Nat.zero_le 1
  started := Nat.le_of_eq seq.symm
  increasing := by simp [allocated, tx]
  numbered := by simp [allocated, tx]
  bounded := by simp [allocated, tx]
  positive := by
    rw [replay]
    exact ReplayBuffer.cap_new_pos _
  window := by
    have empty : pushed s [] = [] := by simp [pushed, tx]
    rw [replay, empty]
    exact ReplayBuffer.isWindow_new _
  visible := Absorbs.nil

namespace Sound

variable {s s' : Scene Text} {es es' : List Emission}

theorem step (sound : Sound s es) (h : EmissionStep s es s' es') : Sound s' es' where
  single := by
    cases h with
    | idle => exact sound.single
    | start | write | number | push | send => simp
  started := Nat.le_trans sound.started h.seq_le
  increasing := by
    rcases h.allocated_eq with ⟨same, _⟩ | ⟨more, _⟩
    · rw [same]
      exact sound.increasing
    · rw [more, List.pairwise_append]
      refine ⟨sound.increasing, List.pairwise_singleton _ _, fun n hn m hm => ?_⟩
      rw [List.mem_singleton.mp hm]
      exact Nat.lt_succ_of_le (sound.bounded n hn)
  numbered := by
    intro n hn
    rcases h.allocated_eq with ⟨same, _⟩ | ⟨more, _⟩
    · exact sound.numbered n (same ▸ hn)
    · rw [more] at hn
      rcases List.mem_append.mp hn with old | new
      · exact sound.numbered n old
      · rw [List.mem_singleton.mp new]
        exact Nat.succ_pos _
  bounded := by
    intro n hn
    rcases h.allocated_eq with ⟨same, seq⟩ | ⟨more, seq⟩
    · rw [seq]
      exact sound.bounded n (same ▸ hn)
    · rw [seq]
      rw [more] at hn
      rcases List.mem_append.mp hn with old | new
      · exact Nat.le_succ_of_le (sound.bounded n old)
      · exact Nat.le_of_eq (List.mem_singleton.mp new)
  positive := by
    rcases h.pushed_eq with ⟨_, replay⟩ | ⟨record, _, replay⟩ <;>
      simpa [replay] using sound.positive
  window := by
    rcases h.pushed_eq with ⟨same, replay⟩ | ⟨record, more, replay⟩
    · rw [same, replay]
      exact sound.window
    · rw [more, replay]
      exact sound.window.push sound.positive record
  visible := by
    cases h with
    | idle store => rw [store]; exact sound.visible
    | start | send => exact Absorbs.nil
    | number | push => exact sound.visible
    | write patches cause =>
        have written := (Absorbs.nil (m := s.store)).append_overwrite (writes patches)
        simpa [Emission.written, Emission.batch, Scene.applyPatches] using written

/-- A scene change takes a number that belongs to no emission. -/
theorem change (sound : Sound s es) : Sound s.advanceSeq es where
  single := sound.single
  started := Nat.le_succ_of_le sound.started
  increasing := sound.increasing
  numbered := sound.numbered
  bounded := fun n hn => Nat.le_succ_of_le (sound.bounded n hn)
  positive := sound.positive
  window := sound.window
  visible := sound.visible

theorem sent_le (sound : Sound s es) {p : DeltaPayload} (hp : p ∈ s.tx.sent) : p.seq ≤ s.seq :=
  sound.bounded _ (List.mem_append_left _ (List.mem_map_of_mem hp))

theorem sent_increasing (sound : Sound s es) : s.tx.sent.Pairwise fun p q => p.seq < q.seq :=
  List.pairwise_map.mp (List.pairwise_append.mp sound.increasing).1

/-- The store contains the writes that are not broadcast yet. -/
theorem rebuildsFrom_store (sound : Sound s es) :
    RebuildsFrom s.tx.sent.length s.store s es := by
  rw [RebuildsFrom, written, List.drop_length]
  exact sound.visible

/-- The store contains the writes that have no number above the counter. -/
theorem foldsTo_store (sound : Sound s es) : FoldsTo s.seq s.store s es := by
  have none_sent : s.tx.sent.filter (fun p => s.seq < p.seq) = [] :=
    List.filter_eq_nil_iff.mpr fun p hp => by simpa using sound.sent_le hp
  rw [FoldsTo, pending, none_sent]
  cases es with
  | nil => exact Absorbs.nil
  | cons e rest =>
      obtain rfl : rest = [] := by simpa using sound.single
      obtain ⟨patches, cause, stage⟩ := e
      cases stage with
      | write => exact Absorbs.nil
      | number => exact sound.visible
      | push seq | send seq =>
          have le : seq ≤ s.seq := sound.bounded seq (List.mem_append_right _ (by
            simp [Emission.number]))
          have held : Emission.isPending s.seq ⟨patches, cause, .push seq⟩ = false := by
            simpa [Emission.isPending] using le
          have held' : Emission.isPending s.seq ⟨patches, cause, .send seq⟩ = false := held
          simp only [List.filter_cons, held, held']
          exact Absorbs.nil

end Sound

section Replay

variable {s s' : Scene Text} {es es' : List Emission} {since start : Nat} {state : State}

/-- What is pending above an old enough point keeps leading to the store. -/
theorem FoldsTo.step (folds : FoldsTo since state s es) (reached : since ≤ s.seq)
    (h : EmissionStep s es s' es') : FoldsTo since state s' es' := by
  rcases h.pending_eq reached with ⟨same, store⟩ | ⟨batch, more, store⟩
  · rw [FoldsTo, same, store]
    exact folds
  · rw [FoldsTo, more, store, writesOf_append, writesOf_singleton, overwrite_append, folds]

/-- The same for the store itself, which absorbs what is pending. -/
theorem FoldsTo.step_store (folds : FoldsTo since s.store s es) (reached : since ≤ s.seq)
    (h : EmissionStep s es s' es') : FoldsTo since s'.store s' es' := by
  rcases h.pending_eq reached with ⟨same, store⟩ | ⟨batch, more, store⟩
  · rw [FoldsTo, same, store]
    exact folds
  · rw [FoldsTo, more, store, writesOf_append, writesOf_singleton]
    exact Absorbs.append_overwrite folds batch

theorem RebuildsFrom.step (rebuilds : RebuildsFrom start state s es)
    (within : start ≤ s.tx.sent.length) (h : EmissionStep s es s' es') :
    RebuildsFrom start state s' es' := by
  rcases h.written_eq within with ⟨same, store⟩ | ⟨batch, more, store⟩
  · rw [RebuildsFrom, same, store]
    exact rebuilds
  · rw [RebuildsFrom, more, store, writesOf_append, writesOf_singleton, overwrite_append, rebuilds]

theorem RebuildsFrom.step_store (rebuilds : RebuildsFrom start s.store s es)
    (within : start ≤ s.tx.sent.length) (h : EmissionStep s es s' es') :
    RebuildsFrom start s'.store s' es' := by
  rcases h.written_eq within with ⟨same, store⟩ | ⟨batch, more, store⟩
  · rw [RebuildsFrom, same, store]
    exact rebuilds
  · rw [RebuildsFrom, more, store, writesOf_append, writesOf_singleton]
    exact Absorbs.append_overwrite rebuilds batch

end Replay
end Lumencast.Server
