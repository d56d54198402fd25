import Lumencast.Foundation.Trace
import Lumencast.Client.Manager

/-!
# What the client's events promise

An application folds each delta event over the latest snapshot event. It relies on
two properties of the events: a delta has the number that follows the latest
snapshot or delta, and after a scene change no delta comes before the next
snapshot.

The tracker accepts any positive number while it stands at zero, from a frame of
any kind. `OpensNumbering` is the frame that uses this where it should not: a
delta instead of a snapshot.
-/

namespace Lumencast.Client

open Foundation Protocol

/-- The number of a snapshot or delta event. -/
def Event.position? : Event → Option Nat
  | snapshot s => some s.seq
  | delta d => some d.seq
  | _ => none

/-- The number of the latest snapshot or delta. -/
def latestSeq (events : List Event) : Option Nat := (events.filterMap Event.position?).getLast?

/-- A scene change is the last of the scene changes and snapshots. -/
def awaitsSnapshot (events : List Event) : Bool :=
  events.foldl (fun awaits event =>
    match event with
    | .snapshot _ => false
    | .sceneChanged _ => true
    | _ => awaits) false

/-- A delta event comes in its turn: not after a scene change, and with the number that
follows the latest one. -/
def ComesInTurn (earlier : List Event) : Event → Prop
  | .delta d => awaitsSnapshot earlier = false ∧ ∃ n ∈ latestSeq earlier, d.seq = n + 1
  | .snapshot _ | .sceneChanged _ | .error _ => True

/-- Every delta event comes in its turn, the opening snapshot being the first event. -/
def DeltasFollow (opening : Snapshot) (events : List Event) : Prop :=
  EachAfter (fun front => ComesInTurn (.snapshot opening :: front)) events

/-- The highest number since the last scene change, behind the opening snapshot. -/
def numberAfter (opening : Snapshot) (frames : List ServerFrame) : Nat :=
  frames.foldl highestAfter opening.seq

/-- A delta is the first numbered frame since a scene change, or since an opening
snapshot with the number 0 that it does not follow; no gap was found before it. -/
def OpensNumbering (opening : Snapshot) (front : List ServerFrame) : ServerFrame → Prop
  | .delta d => 1 ≤ d.seq ∧ UnbrokenFrom opening.seq front ∧ numberAfter opening front = 0 ∧
      ¬(d.seq = 1 ∧ ∀ f ∈ front, f.seq = none)
  | .snapshot _ | .sceneChanged _ | .error _ | .pong _ => False

/-- No delta opens a numbering. -/
def SnapshotsOpen (opening : Snapshot) (frames : List ServerFrame) : Prop :=
  EachAfter (fun front frame => ¬OpensNumbering opening front frame) frames

instance (earlier : List Event) : (event : Event) → Decidable (ComesInTurn earlier event)
  | .delta _ => inferInstanceAs (Decidable (_ ∧ ∃ n ∈ latestSeq earlier, _))
  | .snapshot _ | .sceneChanged _ | .error _ => isTrue trivial

instance (opening : Snapshot) (front : List ServerFrame) :
    (frame : ServerFrame) → Decidable (OpensNumbering opening front frame)
  | .delta _ => inferInstanceAs (Decidable (_ ∧ _ ∧ _ ∧ ¬_))
  | .snapshot _ | .sceneChanged _ | .error _ | .pong _ => isFalse id

instance (opening : Snapshot) (events : List Event) : Decidable (DeltasFollow opening events) :=
  inferInstanceAs (Decidable (EachAfter _ events))

instance (opening : Snapshot) (frames : List ServerFrame) :
    Decidable (SnapshotsOpen opening frames) :=
  inferInstanceAs (Decidable (EachAfter _ frames))

/-- Where a numbering is opened, the tracker stands at zero. -/
theorem OpensNumbering.fresh {opening : Snapshot} {front : List ServerFrame} {frame : ServerFrame}
    (opens : OpensNumbering opening front frame) :
    (∃ d, frame = .delta d ∧ 1 ≤ d.seq) ∧ UnbrokenFrom opening.seq front ∧
      numberAfter opening front = 0 := by
  cases frame with
  | delta d => exact ⟨⟨d, rfl, opens.1⟩, opens.2.1, opens.2.2.1⟩
  | snapshot | sceneChanged | error | pong => exact opens.elim

section Events

variable {events : List Event} {s : Snapshot} {d : Delta} {c : SceneChanged}

@[simp] theorem latestSeq_snapshot : latestSeq (events ++ [.snapshot s]) = some s.seq := by
  simp [latestSeq, Event.position?]

@[simp] theorem latestSeq_delta : latestSeq (events ++ [.delta d]) = some d.seq := by
  simp [latestSeq, Event.position?]

@[simp] theorem awaitsSnapshot_snapshot : awaitsSnapshot (events ++ [.snapshot s]) = false := by
  simp [awaitsSnapshot]

@[simp] theorem awaitsSnapshot_delta :
    awaitsSnapshot (events ++ [.delta d]) = awaitsSnapshot events := by
  simp [awaitsSnapshot]

@[simp] theorem awaitsSnapshot_sceneChanged :
    awaitsSnapshot (events ++ [.sceneChanged c]) = true := by
  simp [awaitsSnapshot]

end Events

/-- A frame adds events at the end. -/
theorem Session.exists_events_receive (session : Session) (frame : ServerFrame) :
    ∃ more, (session.receive frame).events = session.events ++ more := by
  rw [receive]
  split
  · exact ⟨[], by simp⟩
  · split
    · exact ⟨_, rfl⟩
    · exact ⟨[], by simp⟩

/-- The tracker takes a number: any positive one as the first, then the next one. -/
def Accepts (highest seq : Nat) : Prop := if highest = 0 then 1 ≤ seq else seq = highest + 1

theorem handleFrame_of_accepts {highest seq : Nat} {frame : ServerFrame}
    (numbered : frame.seq = some seq) (accepts : Accepts highest seq) :
    handleFrame ⟨highest⟩ frame = .ok (dispatch ⟨seq⟩ frame) := by
  rw [handleFrame, numbered]
  by_cases fresh : highest = 0
  · subst fresh
    rw [Accepts, if_pos rfl] at accepts
    simp only [SequenceTracker.observeSeq_fresh accepts]
  · rw [Accepts, if_neg fresh] at accepts
    subst accepts
    have next := SequenceTracker.observeSeq_next ⟨highest⟩
    simp only [next]

/-- A frame that skips a number is a gap. -/
theorem handleFrame_of_skips {highest : Nat} {frame : ServerFrame}
    (skips : ¬Continues highest frame) : handleFrame ⟨highest⟩ frame = .error .gap := by
  cases numbered : frame.seq with
  | none => exact absurd (fun seq h => by simp [numbered] at h) skips
  | some seq =>
      have beyond : ¬if highest = 0 then 1 ≤ seq else seq ≤ highest + 1 := fun bound =>
        skips fun n h => by
          rw [numbered] at h
          cases h
          exact bound
      rw [handleFrame, numbered]
      split at beyond
      · next fresh =>
        subst fresh
        have zero : seq < 1 := Nat.not_le.mp beyond
        simp [SequenceTracker.observeSeq, zero]
      · next seen =>
        have gap := @SequenceTracker.observeSeq_gap ⟨highest⟩ seq (Nat.pos_of_ne_zero seen)
          (Nat.not_le.mp beyond)
        simp only [gap]

/-- A frame is a gap, tells the client nothing, or is taken with its number. -/
theorem frame_cases (highest : Nat) (frame : ServerFrame) :
    ¬Continues highest frame ∨
      Continues highest frame ∧ (frame.seq = none ∨ ∃ seq, frame.seq = some seq ∧
        (1 ≤ highest ∧ seq ≤ highest ∨ Accepts highest seq ∧ highest < seq)) := by
  by_cases continues : Continues highest frame
  · refine .inr ⟨continues, ?_⟩
    cases numbered : frame.seq with
    | none => exact .inl rfl
    | some seq =>
        have bound := continues seq numbered
        refine .inr ⟨seq, rfl, ?_⟩
        unfold Accepts
        split at bound
        · next fresh =>
          rw [if_pos fresh]
          exact .inr ⟨bound, by omega⟩
        · next seen =>
          rw [if_neg seen]
          by_cases old : seq ≤ highest
          · exact .inl ⟨by omega, old⟩
          · exact .inr ⟨by omega, by omega⟩
  · exact .inl continues

/-- The client between two frames, as long as no gap was found: where it stands in the
numbering, by its events and by the frames. -/
structure Tracked (opening : Snapshot) (front : List ServerFrame) (session : Session) : Prop where
  running : session.reconnecting = false
  unbroken : UnbrokenFrom opening.seq front
  tracker : session.tracker = ⟨numberAfter opening front⟩
  position :
    (awaitsSnapshot (.snapshot opening :: session.events) = false ∧
      latestSeq (.snapshot opening :: session.events) = some (numberAfter opening front) ∧
      (numberAfter opening front = 0 → ∀ f ∈ front, f.seq = none)) ∨
    (awaitsSnapshot (.snapshot opening :: session.events) = true ∧
      numberAfter opening front = 0 ∧ ∃ f ∈ front, f.seq ≠ none)

theorem numberAfter_concat (opening : Snapshot) (front : List ServerFrame) (f : ServerFrame) :
    numberAfter opening (front ++ [f]) = highestAfter (numberAfter opening front) f :=
  List.foldl_concat ..

namespace Tracked

variable {opening : Snapshot} {front : List ServerFrame} {session : Session} {f : ServerFrame}

theorem start (opening : Snapshot) : Tracked opening [] (Session.open_ opening) where
  running := rfl
  unbroken := trivial
  tracker := by
    by_cases positive : 1 ≤ opening.seq
    · exact open_tracker positive
    · have zero : opening.seq = 0 := by omega
      simp [Session.open_, SequenceTracker.new, SequenceTracker.observeSeq, numberAfter, zero]
  position := .inl ⟨rfl, rfl, fun _ f hf => by cases hf⟩

/-- After a gap nothing more is read. -/
theorem gap (tracked : Tracked opening front session)
    (skips : ¬Continues (numberAfter opening front) f) :
    session.receive f = { session with reconnecting := true } ∧
      ¬OpensNumbering opening front f := by
  constructor
  · simp [Session.receive, tracked.running, tracked.tracker, handleFrame_of_skips skips]
  · intro opens
    obtain ⟨⟨d, rfl, positive⟩, _, zero⟩ := opens.fresh
    apply skips
    rintro seq ⟨⟩
    rw [if_pos zero]
    exact positive

/-- A frame without a number, or with one seen before. -/
theorem silent (tracked : Tracked opening front session)
    (continues : Continues (numberAfter opening front) f)
    (old : ∀ seq ∈ f.seq, 1 ≤ numberAfter opening front ∧ seq ≤ numberAfter opening front) :
    session.receive f = session ∧ ¬OpensNumbering opening front f ∧
      Tracked opening (front ++ [f]) session := by
  have same : session.receive f = session := by
    cases numbered : f.seq with
    | none => exact Session.receive_unnumbered numbered
    | some seq =>
        obtain ⟨seen, le⟩ := old seq numbered
        have last : session.tracker.last = numberAfter opening front :=
          congrArg SequenceTracker.last tracked.tracker
        exact Session.receive_duplicate tracked.running numbered (last ▸ seen) (last ▸ le)
  have number : numberAfter opening (front ++ [f]) = numberAfter opening front := by
    rw [numberAfter_concat]
    cases numbered : f.seq with
    | none => cases f <;> simp_all [ServerFrame.seq, highestAfter]
    | some seq =>
        obtain ⟨_, le⟩ := old seq numbered
        cases f <;> simp_all [ServerFrame.seq, highestAfter]
  refine ⟨same, ?_, tracked.running, ?_, by rw [number]; exact tracked.tracker, ?_⟩
  · intro opens
    obtain ⟨⟨d, rfl, _⟩, _, zero⟩ := opens.fresh
    have := (old d.seq rfl).1
    omega
  · rw [unbrokenFrom_append]
    exact ⟨tracked.unbroken, continues, trivial⟩
  · rw [number]
    rcases tracked.position with ⟨awaits, latest, quiet⟩ | ⟨awaits, zero, g, hg, numbered⟩
    · refine .inl ⟨awaits, latest, fun zero g hg => ?_⟩
      rcases List.mem_append.mp hg with earlier | last
      · exact quiet zero g earlier
      · rw [List.mem_singleton.mp last]
        cases numbered : f.seq with
        | none => rfl
        | some seq =>
            have := (old seq numbered).1
            omega
    · exact .inr ⟨awaits, zero, g, List.mem_append_left _ hg, numbered⟩

/-- A frame that is taken with its number produces its event. -/
theorem taken (tracked : Tracked opening front session) {seq : Nat} (numbered : f.seq = some seq)
    (accepts : Accepts (numberAfter opening front) seq)
    (above : numberAfter opening front < seq) (continues : Continues (numberAfter opening front) f)
    (other : errorOf f = none) :
    ∃ event, (session.receive f).events = session.events ++ [event] ∧
      (ComesInTurn (.snapshot opening :: session.events) event ↔
        ¬OpensNumbering opening front f) ∧
      (¬OpensNumbering opening front f → Tracked opening (front ++ [f]) (session.receive f)) := by
  have received : session.receive f =
      { session with
        tracker := (dispatch ⟨seq⟩ f).1
        events := session.events ++ (dispatch ⟨seq⟩ f).2 } := by
    simp [Session.receive, tracked.running, tracked.tracker,
      handleFrame_of_accepts numbered accepts]
  have unbroken : UnbrokenFrom opening.seq (front ++ [f]) := by
    rw [unbrokenFrom_append]
    exact ⟨tracked.unbroken, continues, trivial⟩
  cases f with
  | snapshot s =>
      cases numbered
      have number : numberAfter opening (front ++ [.snapshot s]) = s.seq := by
        rw [numberAfter_concat]
        simp [highestAfter, ServerFrame.seq, Nat.le_of_lt above]
      rw [received]
      refine ⟨.snapshot s, rfl, ⟨fun _ => id, fun _ => trivial⟩, fun _ =>
        ⟨tracked.running, unbroken, ?_, .inl ?_⟩⟩
      · rw [number]
        rfl
      · rw [number]
        simp only [dispatch, ← List.cons_append, latestSeq_snapshot, awaitsSnapshot_snapshot]
        exact ⟨trivial, trivial, by omega⟩
  | delta d =>
      cases numbered
      have number : numberAfter opening (front ++ [.delta d]) = d.seq := by
        rw [numberAfter_concat]
        simp [highestAfter, ServerFrame.seq, Nat.le_of_lt above]
      rw [received]
      rcases tracked.position with ⟨awaits, latest, quiet⟩ | ⟨awaits, zero, g, hg, unquiet⟩
      · have inTurn : ComesInTurn (.snapshot opening :: session.events) (.delta d) ↔
            d.seq = numberAfter opening front + 1 := by
          simp [ComesInTurn, awaits, latest]
        have opens : OpensNumbering opening front (.delta d) ↔
            numberAfter opening front = 0 ∧ d.seq ≠ 1 := by
          constructor
          · rintro ⟨_, _, zero, apart⟩
            exact ⟨zero, fun one => apart ⟨one, quiet zero⟩⟩
          · rintro ⟨zero, apart⟩
            exact ⟨by omega, tracked.unbroken, zero, fun first => apart first.1⟩
        unfold Accepts at accepts
        refine ⟨.delta d, rfl, ?_, fun _ => ⟨tracked.running, unbroken, ?_, .inl ?_⟩⟩
        · rw [inTurn, opens]
          split at accepts <;> omega
        · rw [number]
          rfl
        · rw [number]
          simp only [dispatch, ← List.cons_append, latestSeq_delta, awaitsSnapshot_delta]
          exact ⟨awaits, trivial, by omega⟩
      · have opens : OpensNumbering opening front (.delta d) :=
          ⟨by omega, tracked.unbroken, zero, fun first => unquiet (first.2 g hg)⟩
        refine ⟨.delta d, rfl, ?_, fun closed => absurd opens closed⟩
        simp [ComesInTurn, awaits, opens]
  | sceneChanged c =>
      cases numbered
      have number : numberAfter opening (front ++ [.sceneChanged c]) = 0 := by
        rw [numberAfter_concat]
        simp [highestAfter, Nat.not_le.mpr above]
      rw [received]
      refine ⟨.sceneChanged c, rfl, ⟨fun _ => id, fun _ => trivial⟩,
        fun _ => ⟨tracked.running, unbroken, ?_, .inr ?_⟩⟩
      · rw [number]
        rfl
      · simp only [dispatch, ← List.cons_append, awaitsSnapshot_sceneChanged]
        exact ⟨trivial, number, .sceneChanged c, by simp, by simp [ServerFrame.seq]⟩
  | error e => cases other
  | pong p => cases numbered

/-- One more frame: what it adds to the events is in turn exactly when it opens no numbering. -/
theorem next (tracked : Tracked opening front session) (other : errorOf f = none) :
    ∃ more, (session.receive f).events = session.events ++ more ∧
      (DeltasFollow opening (session.events ++ more) ↔
        DeltasFollow opening session.events ∧ ¬OpensNumbering opening front f) ∧
      (¬OpensNumbering opening front f → Tracked opening (front ++ [f]) (session.receive f) ∨
        (session.receive f).reconnecting = true ∧ ¬UnbrokenFrom opening.seq (front ++ [f])) := by
  rcases frame_cases (numberAfter opening front) f with
    skips | ⟨continues, unnumbered | ⟨seq, numbered, ⟨seen, le⟩ | ⟨accepts, above⟩⟩⟩
  · obtain ⟨received, closed⟩ := tracked.gap skips
    refine ⟨[], by simp [received], by simp [closed], fun _ => .inr ⟨by rw [received], ?_⟩⟩
    rw [unbrokenFrom_append]
    exact fun unbroken => skips unbroken.2.1
  · obtain ⟨same, closed, next⟩ := tracked.silent continues (by simp [unnumbered])
    exact ⟨[], by simp [same], by simp [closed], fun _ => .inl (same.symm ▸ next)⟩
  · obtain ⟨same, closed, next⟩ := tracked.silent continues (by
      intro n hn
      rw [numbered] at hn
      cases hn
      exact ⟨seen, le⟩)
    exact ⟨[], by simp [same], by simp [closed], fun _ => .inl (same.symm ▸ next)⟩
  · obtain ⟨event, events, inTurn, next⟩ := tracked.taken numbered accepts above continues other
    refine ⟨[event], events, ?_, fun closed => .inl (next closed)⟩
    rw [DeltasFollow, EachAfter.concat_iff, inTurn]
    rfl

end Tracked

/-- The client has read all frames, or it stopped at a gap. -/
theorem tracked_or_stopped {opening : Snapshot} {frames : List ServerFrame}
    (others : ∀ f ∈ frames, errorOf f = none) :
    (DeltasFollow opening (drive opening frames).events ↔ SnapshotsOpen opening frames) ∧
      (SnapshotsOpen opening frames → Tracked opening frames (drive opening frames) ∨
        (drive opening frames).reconnecting = true ∧ ¬UnbrokenFrom opening.seq frames) := by
  induction frames using List.reverseRecOn with
  | nil => exact ⟨⟨fun _ => EachAfter.nil, fun _ => EachAfter.nil⟩, fun _ => .inl (.start opening)⟩
  | append_singleton front f ih =>
      obtain ⟨follow, reached⟩ := ih fun g hg => others g (List.mem_append_left _ hg)
      have other := others f (by simp)
      rw [drive_concat, SnapshotsOpen, EachAfter.concat_iff, ← SnapshotsOpen]
      by_cases opened : SnapshotsOpen opening front
      · rcases reached opened with tracked | ⟨stopped, broken⟩
        · obtain ⟨more, events, inTurn, next⟩ := tracked.next other
          rw [events, inTurn, follow]
          exact ⟨Iff.rfl, fun h => next h.2⟩
        · have same : (drive opening front).receive f = drive opening front := by
            simp [Session.receive, stopped]
          have closed : ¬OpensNumbering opening front f := fun opens =>
            broken opens.fresh.2.1
          rw [same, follow]
          refine ⟨by simp [closed], fun _ => .inr ⟨stopped, fun unbroken => broken ?_⟩⟩
          exact (unbrokenFrom_append.mp unbroken).1
      · obtain ⟨more, events⟩ := (drive opening front).exists_events_receive f
        refine ⟨⟨fun follows => absurd ?_ opened, fun h => absurd h.1 opened⟩,
          fun h => absurd h.1 opened⟩
        rw [events] at follows
        exact follow.mp (follows.append_left)

/-- For every opening snapshot and all frames other than errors: the delta events come in
turn exactly when no delta opens a numbering. -/
theorem deltasFollow_iff (opening : Snapshot) (frames : List ServerFrame)
    (others : ∀ f ∈ frames, errorOf f = none) :
    DeltasFollow opening (drive opening frames).events ↔ SnapshotsOpen opening frames :=
  (tracked_or_stopped others).1

private def opening : Snapshot :=
  { seq := 1, sceneId := "studio", sceneVersion := "v1", state := ∅, ts := none }

private def lampDelta (seq : Nat) : ServerFrame :=
  .delta { seq, patches := [⟨⟨"lamp"⟩, .bool true, none⟩], cause := none }

private def change (seq : Nat) : ServerFrame :=
  .sceneChanged { seq, sceneId := "stage", sceneVersion := "v1", ts := none }

/-- A delta on either side of a scene change, the second one behind a snapshot. -/
private def changed : List ServerFrame := [lampDelta 2, change 3, .snapshot opening, lampDelta 2]

theorem deltasFollow_iff_changed :
    (drive opening changed).events.length = 4 ∧
      DeltasFollow opening (drive opening changed).events :=
  ⟨by decide, (deltasFollow_iff opening changed (by decide)).mpr (by decide)⟩

/-- A delta right after a scene change is passed on, whatever its number is. -/
theorem not_deltasFollow_of_missingSnapshot :
    (∀ f ∈ [change 2, lampDelta 7], errorOf f = none) ∧
      (drive opening [change 2, lampDelta 7]).reconnecting = false ∧
      ¬DeltasFollow opening (drive opening [change 2, lampDelta 7]).events := by
  decide

end Lumencast.Client
