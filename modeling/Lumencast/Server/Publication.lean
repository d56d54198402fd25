import Lumencast.Foundation.Fresh
import Lumencast.Server.SingleEmitter
import Lumencast.Server.WireOrder
import Lumencast.Server.WriteOrder

/-!
# What a scene has published

`history` lists the deltas that hold a number: those that the channel carries, then those
of the emissions in progress, by number. As long as no emission is overtaken between its
number and its record or its delta, the history only grows, what the ring has recorded is
a front part of it, and what the channel carries is a front part of that. `Published` is
this invariant, for any number of emissions in progress.
-/

namespace Lumencast.Server

open Foundation Protocol

variable {Text : Type}

/-! ## Sorted deltas -/

theorem inSeqOrder_perm (deltas : List DeltaPayload) : (inSeqOrder deltas).Perm deltas :=
  List.mergeSort_perm deltas _

/-- The order in which the deltas are given does not matter. -/
theorem inSeqOrder_congr {deltas deltas' : List DeltaPayload} (perm : deltas.Perm deltas')
    (increasing : (inSeqOrder deltas).Pairwise fun p q => p.seq < q.seq) :
    inSeqOrder deltas' = inSeqOrder deltas :=
  SceneCell.inSeqOrder_eq ((inSeqOrder_perm deltas).trans perm) increasing

/-- A delta with a number above all others comes last. -/
theorem inSeqOrder_concat {deltas deltas' : List DeltaPayload} {p : DeltaPayload}
    (perm : (deltas ++ [p]).Perm deltas')
    (increasing : (inSeqOrder deltas ++ [p]).Pairwise fun p q => p.seq < q.seq) :
    inSeqOrder deltas' = inSeqOrder deltas ++ [p] :=
  SceneCell.inSeqOrder_eq (((inSeqOrder_perm deltas).append_right [p]).trans perm) increasing

/-- An increasing list starts with its least delta. -/
theorem exists_eq_cons_of_least {l : List DeltaPayload} {p : DeltaPayload}
    (increasing : l.Pairwise fun p q => p.seq < q.seq) (member : p ∈ l)
    (least : ∀ q ∈ l, p.seq ≤ q.seq) : ∃ rest, l = p :: rest := by
  cases l with
  | nil => cases member
  | cons a rest =>
      refine ⟨rest, congrArg (· :: rest) ?_⟩
      rcases List.mem_cons.mp member with same | later
      · exact same.symm
      · have above := (List.pairwise_cons.mp increasing).1 p later
        have below := least a List.mem_cons_self
        omega

/-- The delta with the least number comes first. -/
theorem inSeqOrder_eq_cons {deltas deltas' : List DeltaPayload} {p : DeltaPayload}
    (perm : deltas.Perm (p :: deltas'))
    (increasing : (inSeqOrder deltas).Pairwise fun p q => p.seq < q.seq)
    (least : ∀ q ∈ deltas', p.seq ≤ q.seq) :
    inSeqOrder deltas = p :: inSeqOrder deltas' := by
  have sorted := (inSeqOrder_perm deltas).trans perm
  obtain ⟨rest, eq⟩ := exists_eq_cons_of_least increasing
    (sorted.mem_iff.mpr List.mem_cons_self) fun q member => by
      rcases List.mem_cons.mp (sorted.mem_iff.mp member) with rfl | other
      · exact Nat.le_refl _
      · exact least q other
  rw [eq] at sorted increasing ⊢
  rw [SceneCell.inSeqOrder_eq sorted.cons_inv (List.pairwise_cons.mp increasing).2]

namespace Emission

/-- The delta of an emission that is in the ring and not in the channel. -/
def recorded (e : Emission) : Option DeltaPayload :=
  match e.stage with
  | .send seq => some ⟨seq, e.patches, e.cause⟩
  | .write | .number | .push _ => none

/-- The delta of an emission that is numbered and not in the ring. -/
def unrecorded (e : Emission) : Option DeltaPayload :=
  match e.stage with
  | .push seq => some ⟨seq, e.patches, e.cause⟩
  | .write | .number | .send _ => none

/-- The delta that takes its number in the next step. -/
def numbers (e : Emission) (s : Scene Text) : List DeltaPayload :=
  match e.stage with
  | .number => [⟨s.nextSeq, e.patches, e.cause⟩]
  | .write | .push _ | .send _ => []

theorem number_of_payload {e : Emission} {p : DeltaPayload} (h : e.payload = some p) :
    e.number = some p.seq := by
  obtain ⟨seq, held, rfl⟩ := Option.map_eq_some_iff.mp h
  exact held

theorem number_of_recorded {e : Emission} {p : DeltaPayload} (h : e.recorded = some p) :
    e.number = some p.seq := by
  obtain ⟨_, _, stage⟩ := e
  cases stage <;> cases h
  rfl

theorem toPush_of_unrecorded {e : Emission} {p : DeltaPayload} (h : e.unrecorded = some p) :
    e.toPush = some p.seq := by
  obtain ⟨_, _, stage⟩ := e
  cases stage <;> cases h
  rfl

end Emission

namespace SceneCell

/-- The deltas of the channel, followed by those that the calls in progress hold, by number. -/
def inSight (held : Emission → Option DeltaPayload) (cell : SceneCell Text) : List DeltaPayload :=
  cell.scene.tx.sent ++ inSeqOrder (waiting held cell.calls)

/-- The deltas that hold a number. -/
def history (cell : SceneCell Text) : List DeltaPayload := cell.inSight Emission.payload

/-- The deltas that were pushed to the ring. -/
def recorded (cell : SceneCell Text) : List DeltaPayload := cell.inSight Emission.recorded

section InSight

variable {held : Emission → Option DeltaPayload} {cell cell' : SceneCell Text} {p : DeltaPayload}

theorem inSight_of_idle (idle : cell.calls = []) : cell.inSight held = cell.scene.tx.sent := by
  simp [inSight, idle, waiting, inSeqOrder]

theorem history_of_idle (idle : cell.calls = []) : cell.history = cell.scene.tx.sent :=
  inSight_of_idle idle

theorem recorded_of_idle (idle : cell.calls = []) : cell.recorded = cell.scene.tx.sent :=
  inSight_of_idle idle

theorem front_of_inSight (held : Emission → Option DeltaPayload) (cell : SceneCell Text) :
    cell.scene.tx.sent <+: cell.inSight held :=
  List.prefix_append ..

theorem inSight_perm (held : Emission → Option DeltaPayload) (cell : SceneCell Text) :
    (cell.inSight held).Perm (cell.scene.tx.sent ++ waiting held cell.calls) :=
  (inSeqOrder_perm _).append_left _

theorem inSight_congr (sent : cell'.scene.tx.sent = cell.scene.tx.sent)
    (calls : (waiting held cell.calls).Perm (waiting held cell'.calls))
    (increasing : (cell.inSight held).Pairwise fun p q => p.seq < q.seq) :
    cell'.inSight held = cell.inSight held := by
  rw [inSight, inSight, sent, inSeqOrder_congr calls (List.pairwise_append.mp increasing).2.1]

/-- A call comes to hold a delta with a number above all others. -/
theorem inSight_concat (sent : cell'.scene.tx.sent = cell.scene.tx.sent)
    (calls : (waiting held cell.calls ++ [p]).Perm (waiting held cell'.calls))
    (increasing : (cell.inSight held ++ [p]).Pairwise fun p q => p.seq < q.seq) :
    cell'.inSight held = cell.inSight held ++ [p] := by
  rw [inSight, List.append_assoc] at increasing
  rw [inSight, inSight, sent, inSeqOrder_concat calls (List.pairwise_append.mp increasing).2.1,
    List.append_assoc]

/-- The delta with the least number goes from its call to the channel. -/
theorem inSight_sent (sent : cell'.scene.tx.sent = cell.scene.tx.sent ++ [p])
    (calls : (waiting held cell.calls).Perm (p :: waiting held cell'.calls))
    (increasing : (cell.inSight held).Pairwise fun p q => p.seq < q.seq)
    (least : ∀ q ∈ waiting held cell'.calls, p.seq ≤ q.seq) :
    cell'.inSight held = cell.inSight held := by
  have first := inSeqOrder_eq_cons calls (List.pairwise_append.mp increasing).2.1 least
  rw [inSight, inSight, sent, first, List.append_assoc, List.singleton_append]

end InSight

/-- A numbered call is recorded or not. -/
theorem numbered_perm (calls : List (Caller × Emission)) : (numbered calls).Perm
    (waiting Emission.recorded calls ++ waiting Emission.unrecorded calls) := by
  induction calls with
  | nil => exact List.Perm.refl _
  | cons call calls ih =>
      rw [numbered_cons, waiting_cons, waiting_cons]
      obtain ⟨caller, patches, cause, stage⟩ := call
      cases stage with
      | write | number => exact ih
      | push seq => exact (ih.cons _).trans (List.perm_middle.symm)
      | send seq => exact ih.cons _

/-- The ring and the channel show the history in its order. -/
structure Published (cell : SceneCell Text) : Prop where
  distinct : cell.Distinct
  increasing : cell.history.Pairwise fun p q => p.seq < q.seq
  bounded : ∀ p ∈ cell.history, p.seq ≤ cell.scene.seq
  front : cell.recorded <+: cell.history
  positive : 0 < cell.scene.replay.cap
  window : cell.scene.replay.IsWindow (cell.recorded.map DeltaPayload.record)

/-- The deltas of a cell after a step that numbers `numbers` and pushes `pushes`. -/
structure Publishes (numbers pushes : List DeltaPayload) (cell cell' : SceneCell Text) : Prop where
  history : cell'.history = cell.history ++ numbers
  recorded : cell'.recorded = cell.recorded ++ pushes
  front : cell'.recorded <+: cell'.history

theorem Publishes.still {cell cell' : SceneCell Text} (history : cell'.history = cell.history)
    (recorded : cell'.recorded = cell.recorded) (front : cell.recorded <+: cell.history) :
    Publishes [] [] cell cell' :=
  ⟨history.trans (List.append_nil _).symm, recorded.trans (List.append_nil _).symm,
    history ▸ recorded ▸ front⟩

namespace Published

variable {cell cell' : SceneCell Text}

theorem recorded_increasing (published : cell.Published) :
    cell.recorded.Pairwise fun p q => p.seq < q.seq :=
  published.increasing.sublist published.front.sublist

/-- What the history has and the ring has not is held by the calls that have still to push. -/
theorem unrecorded_perm {rest : List DeltaPayload}
    (split : cell.recorded ++ rest = cell.history) :
    rest.Perm (waiting Emission.unrecorded cell.calls) := by
  have whole : cell.history.Perm (cell.scene.tx.sent ++ (waiting Emission.recorded cell.calls ++
      waiting Emission.unrecorded cell.calls)) :=
    (inSight_perm Emission.payload cell).trans ((numbered_perm cell.calls).append_left _)
  have shown : cell.recorded.Perm (cell.scene.tx.sent ++ waiting Emission.recorded cell.calls) :=
    inSight_perm Emission.recorded cell
  rw [← split, ← List.append_assoc] at whole
  exact (List.perm_append_left_iff _).mp (whole.trans (shown.symm.append_right _))

/-- The least number that is not in the ring comes next. -/
theorem concat_front (published : cell.Published) {p : DeltaPayload}
    (held : p ∈ waiting Emission.unrecorded cell.calls)
    (least : ∀ q ∈ waiting Emission.unrecorded cell.calls, p.seq ≤ q.seq) :
    cell.recorded ++ [p] <+: cell.history := by
  obtain ⟨rest, split⟩ := published.front
  have perm := unrecorded_perm split
  have increasing := published.increasing
  rw [← split] at increasing
  obtain ⟨rest', rfl⟩ := exists_eq_cons_of_least (List.pairwise_append.mp increasing).2.1
    (perm.mem_iff.mpr held) fun q member => least q (perm.mem_iff.mp member)
  exact ⟨rest', by rw [← split, List.append_assoc, List.singleton_append]⟩

/-- The locked steps of one call, at its place among the calls in progress. -/
theorem progress {caller : Caller} {e : Emission} {before after : List (Caller × Emission)}
    (published : cell.Published) (split : cell.calls = before ++ (caller, e) :: after)
    (first : ∀ call ∈ before ++ after,
      (∀ n ∈ e.toPush, ∀ m ∈ call.2.toPush, n ≤ m) ∧ ∀ n ∈ e.toSend, ∀ m ∈ call.2.number, n ≤ m)
    (next : cell' = { scene := (e.step cell.scene).1
                      calls := before ++ after ++
                        ((e.step cell.scene).2.map fun e => (caller, e)).toList }) :
    Publishes (e.numbers cell.scene) e.unrecorded.toList cell cell' := by
  have held (shown : Emission → Option DeltaPayload) : (waiting shown cell.calls).Perm
      ((shown e).toList ++ waiting shown (before ++ after)) := by
    rw [split]
    exact waiting_middle ..
  have moved (shown : Emission → Option DeltaPayload) : waiting shown cell'.calls =
      waiting shown (before ++ after) ++ ((e.step cell.scene).2.bind shown).toList := by
    rw [next]
    exact waiting_moved ..
  have still (shown : Emission → Option DeltaPayload)
      (same : (e.step cell.scene).2.bind shown = shown e)
      (sent : cell'.scene.tx.sent = cell.scene.tx.sent)
      (increasing : (cell.inSight shown).Pairwise fun p q => p.seq < q.seq) :
      cell'.inSight shown = cell.inSight shown := by
    refine inSight_congr sent ?_ increasing
    rw [moved, same]
    exact (held shown).trans List.perm_append_comm
  have others (shown : Emission → Option DeltaPayload) (key : Emission → Option Nat)
      (shows : ∀ e p, shown e = some p → key e = some p.seq) {n : Nat}
      (least : ∀ call ∈ before ++ after, ∀ m ∈ key call.2, n ≤ m) :
      ∀ q ∈ waiting shown (before ++ after), n ≤ q.seq := by
    intro q member
    obtain ⟨call, calling, found⟩ := List.mem_filterMap.mp member
    exact least call calling q.seq (shows _ _ found)
  obtain ⟨patches, cause, stage⟩ := e
  cases stage with
  | write =>
      have sent : cell'.scene.tx.sent = cell.scene.tx.sent := by rw [next]; rfl
      exact .still (still Emission.payload rfl sent published.increasing)
        (still Emission.recorded rfl sent published.recorded_increasing) published.front
  | number =>
      have sent : cell'.scene.tx.sent = cell.scene.tx.sent := by rw [next]; rfl
      have recorded : cell'.recorded = cell.recorded :=
        still Emission.recorded rfl sent published.recorded_increasing
      have history : cell'.history =
          cell.history ++ [⟨cell.scene.nextSeq, patches, cause⟩] := by
        refine inSight_concat sent ?_ ?_
        · rw [moved]
          exact (held Emission.payload).append_right _
        · refine List.pairwise_append.mpr ⟨published.increasing, List.pairwise_singleton _ _,
            fun p member q new => ?_⟩
          rw [List.mem_singleton.mp new]
          exact Nat.lt_succ_of_le (published.bounded p member)
      exact ⟨history, recorded.trans (List.append_nil _).symm,
        history ▸ recorded ▸ published.front.trans (List.prefix_append ..)⟩
  | push seq =>
      have sent : cell'.scene.tx.sent = cell.scene.tx.sent := by rw [next]; rfl
      have history : cell'.history = cell.history :=
        still Emission.payload rfl sent published.increasing
      have unrecorded : (waiting Emission.unrecorded cell.calls).Perm
          (⟨seq, patches, cause⟩ :: waiting Emission.unrecorded (before ++ after)) :=
        held Emission.unrecorded
      have front : cell.recorded ++ [⟨seq, patches, cause⟩] <+: cell.history := by
        refine published.concat_front (unrecorded.mem_iff.mpr List.mem_cons_self) fun q member => ?_
        rcases List.mem_cons.mp (unrecorded.mem_iff.mp member) with rfl | other
        · exact Nat.le_refl _
        · exact others Emission.unrecorded Emission.toPush
            (fun _ _ => Emission.toPush_of_unrecorded)
            (fun call calling => (first call calling).1 seq rfl) q other
      have recorded : cell'.recorded = cell.recorded ++ [⟨seq, patches, cause⟩] := by
        refine inSight_concat sent ?_ (published.increasing.sublist front.sublist)
        rw [moved]
        exact (held Emission.recorded).append_right _
      exact ⟨history.trans (List.append_nil _).symm, recorded, history ▸ recorded ▸ front⟩
  | send seq =>
      have sent : cell'.scene.tx.sent = cell.scene.tx.sent ++ [⟨seq, patches, cause⟩] := by
        rw [next]
        rfl
      have goes (shown : Emission → Option DeltaPayload)
          (here : shown ⟨patches, cause, .send seq⟩ = some ⟨seq, patches, cause⟩)
          (shows : ∀ e p, shown e = some p → e.number = some p.seq)
          (increasing : (cell.inSight shown).Pairwise fun p q => p.seq < q.seq) :
          cell'.inSight shown = cell.inSight shown := by
        have calls : waiting shown cell'.calls = waiting shown (before ++ after) :=
          (moved shown).trans (List.append_nil _)
        have perm := held shown
        rw [here] at perm
        refine inSight_sent sent (calls ▸ perm) increasing ?_
        rw [calls]
        exact others shown Emission.number shows fun call calling => (first call calling).2 seq rfl
      exact .still
        (goes Emission.payload rfl (fun _ _ => Emission.number_of_payload) published.increasing)
        (goes Emission.recorded rfl (fun _ _ => Emission.number_of_recorded)
          published.recorded_increasing) published.front

end Published

/-- The delta that an action numbers. -/
def numbers (cell : SceneCell Text) : SceneAction → List DeltaPayload
  | .progress caller => (cell.emission caller).elim [] fun e => e.numbers cell.scene
  | .emit .. | .change | .reject .. | .withOperatorInputs _ => []

/-- The delta that an action pushes to the ring. -/
def pushes (cell : SceneCell Text) : SceneAction → List DeltaPayload
  | .progress caller => (cell.emission caller).elim [] fun e => e.unrecorded.toList
  | .emit .. | .change | .reject .. | .withOperatorInputs _ => []

section Step

variable {cell cell' : SceneCell Text} {a : SceneAction}

/-- The counter moves with the numbers, and with a scene change. -/
theorem seq_of_step (h : cell.step a = some cell') :
    (cell.numbers a = [] ∧ cell'.scene.seq = cell.scene.seq) ∨
      (cell.numbers a = [] ∧ cell'.scene.seq = cell.scene.nextSeq ∧ a = .change) ∨
      ∃ p, cell.numbers a = [p] ∧ p.seq = cell.scene.nextSeq ∧
        cell'.scene.seq = cell.scene.nextSeq := by
  cases a with
  | emit caller pairs cause =>
      obtain ⟨_, rfl | ⟨patches, _, rfl⟩⟩ := step_emit h <;> exact .inl ⟨rfl, rfl⟩
  | progress caller =>
      obtain ⟨⟨patches, cause, stage⟩, found, rfl⟩ := step_progress h
      rw [numbers, found]
      cases stage with
      | write | push | send => exact .inl ⟨rfl, rfl⟩
      | number => exact .inr (.inr ⟨_, rfl, rfl, rfl⟩)
  | change =>
      cases h
      exact .inr (.inl ⟨rfl, rfl, rfl⟩)
  | reject | withOperatorInputs =>
      cases h
      exact .inl ⟨rfl, rfl⟩

theorem replay_of_step (h : cell.step a = some cell') :
    (cell.pushes a = [] ∧ cell'.scene.replay = cell.scene.replay) ∨
      ∃ p, cell.pushes a = [p] ∧ cell'.scene.replay = cell.scene.replay.push p.record := by
  cases a with
  | emit caller pairs cause =>
      obtain ⟨_, rfl | ⟨patches, _, rfl⟩⟩ := step_emit h <;> exact .inl ⟨rfl, rfl⟩
  | progress caller =>
      obtain ⟨⟨patches, cause, stage⟩, found, rfl⟩ := step_progress h
      rw [pushes, found]
      cases stage with
      | write | number | send => exact .inl ⟨rfl, rfl⟩
      | push => exact .inr ⟨_, rfl, rfl⟩
  | change | reject | withOperatorInputs =>
      cases h
      exact .inl ⟨rfl, rfl⟩

namespace Published

theorem publishes (published : cell.Published) (ordered : cell.PublishesInOrder a)
    (h : cell.step a = some cell') : Publishes (cell.numbers a) (cell.pushes a) cell cell' := by
  cases a with
  | emit caller pairs cause =>
      obtain ⟨_, rfl | ⟨patches, _, rfl⟩⟩ := step_emit h
      · exact .still rfl rfl published.front
      · refine .still (inSight_congr rfl ?_ published.increasing)
          (inSight_congr rfl ?_ published.recorded_increasing) published.front
        · rw [waiting_concat _ _ _ rfl]
        · rw [waiting_concat _ _ _ rfl]
  | progress caller =>
      obtain ⟨e, found, next⟩ := step_progress h
      obtain ⟨before, after, split, others, _⟩ := emission_eq_some published.distinct found
      rw [numbers, pushes, found]
      rw [others] at next
      exact published.progress split
        (fun call member => ordered e found call (by rwa [others])) next
  | change | reject | withOperatorInputs =>
      cases h
      exact .still rfl rfl published.front

theorem step (published : cell.Published) (ordered : cell.PublishesInOrder a)
    (h : cell.step a = some cell') : cell'.Published := by
  obtain ⟨history, recorded, front⟩ := published.publishes ordered h
  have bounded : ∀ p ∈ cell.history, p.seq ≤ cell'.scene.seq := by
    intro p member
    have := published.bounded p member
    rcases seq_of_step h with ⟨_, seq⟩ | ⟨_, seq, _⟩ | ⟨_, _, _, seq⟩ <;> rw [seq]
    · exact this
    · exact Nat.le_succ_of_le this
    · exact Nat.le_succ_of_le this
  refine ⟨published.distinct.step h, ?_, ?_, front, ?_, ?_⟩
  · rcases seq_of_step h with ⟨nothing, _⟩ | ⟨nothing, _⟩ | ⟨p, new, number, _⟩
    · rw [history, nothing, List.append_nil]
      exact published.increasing
    · rw [history, nothing, List.append_nil]
      exact published.increasing
    · rw [history, new]
      refine List.pairwise_append.mpr ⟨published.increasing, List.pairwise_singleton _ _,
        fun q member r last => ?_⟩
      rw [List.mem_singleton.mp last, number]
      exact Nat.lt_succ_of_le (published.bounded q member)
  · intro p member
    rw [history] at member
    rcases List.mem_append.mp member with old | new
    · exact bounded p old
    · rcases seq_of_step h with ⟨nothing, _⟩ | ⟨nothing, _⟩ | ⟨q, only, number, seq⟩
      · rw [nothing] at new
        cases new
      · rw [nothing] at new
        cases new
      · rw [only] at new
        rw [List.mem_singleton.mp new, seq]
        exact Nat.le_of_eq number
  · rcases replay_of_step h with ⟨_, replay⟩ | ⟨p, _, replay⟩ <;>
      simpa [replay] using published.positive
  · rcases replay_of_step h with ⟨nothing, replay⟩ | ⟨p, only, replay⟩
    · rw [recorded, nothing, List.append_nil, replay]
      exact published.window
    · rw [recorded, only, List.map_append, replay]
      exact published.window.push published.positive p.record

/-- An idle scene with one emitter before. -/
theorem of_sound (idle : cell.calls = []) (sound : Sound cell.scene []) : cell.Published := by
  have history := history_of_idle idle
  have recorded := recorded_of_idle idle
  refine ⟨by simp [Distinct, idle], ?_, fun p member => ?_, ?_, sound.positive, ?_⟩
  · rw [history]
    exact sound.sent_increasing
  · rw [history] at member
    exact sound.sent_le member
  · have whole : cell.recorded = cell.history := recorded.trans history.symm
    exact whole ▸ List.prefix_rfl
  · rw [recorded]
    simpa [pushed] using sound.window

end Published
end Step

/-! ## The store -/

/-- No emission is overtaken where the order shows. -/
def InTurn (cell : SceneCell Text) (a : SceneAction) : Prop :=
  cell.PublishesInOrder a ∧ cell.NumberedInWriteOrder a

instance (cell : SceneCell Text) (a : SceneAction) : Decidable (cell.InTurn a) :=
  inferInstanceAs (Decidable (_ ∧ _))

/-- The batches of writes numbered above `since`, and those that are not numbered yet. -/
def owed (since : Nat) (cell : SceneCell Text) : List (List (String × Value)) :=
  (cell.history.filter fun p => since < p.seq).map DeltaPayload.batch ++
    (unnumbered cell.calls).map Emission.batch

/-- Replaying what is owed over `state` gives the store. -/
def Restores (since : Nat) (state : State) (cell : SceneCell Text) : Prop :=
  overwrite state (writesOf (owed since cell)) = cell.scene.store

namespace Restores

variable {since : Nat} {state : State} {cell cell' : SceneCell Text} {a : SceneAction}

theorem congr (restores : Restores since state cell) (history : cell'.history = cell.history)
    (calls : unnumbered cell'.calls = unnumbered cell.calls)
    (store : cell'.scene.store = cell.scene.store) : Restores since state cell' := by
  rw [Restores, owed, history, calls, store]
  exact restores

theorem progress {caller : Caller} {e : Emission} {before after : List (Caller × Emission)}
    (restores : Restores since state cell) (reached : since ≤ cell.scene.seq)
    (split : cell.calls = before ++ (caller, e) :: after)
    (history : cell'.history = cell.history ++ e.numbers cell.scene)
    (ordered : e.unnumbered → ∀ earlier ∈ unnumbered before, e.sharesPath earlier = false)
    (next : cell' = { scene := (e.step cell.scene).1
                      calls := before ++ after ++
                        ((e.step cell.scene).2.map fun e => (caller, e)).toList }) :
    Restores since state cell' := by
  obtain ⟨patches, cause, stage⟩ := e
  cases stage with
  | write =>
      have calls : unnumbered cell'.calls =
          unnumbered cell.calls ++ [⟨patches, cause, .number⟩] := by
        rw [next, split]
        simp [Emission.step, Emission.unnumbered]
      have owed' : owed since cell' = owed since cell ++ [writes patches] := by
        rw [owed, owed, history.trans (List.append_nil _), calls, List.map_append,
          List.append_assoc]
        rfl
      rw [Restores, owed', writesOf_append, overwrite_append, writesOf_singleton, restores, next]
      rfl
  | number =>
      -- the caller's writes move in front of those of the earlier writers
      have apart : ∀ u ∈ writesOf ((unnumbered before).map Emission.batch), ∀ w ∈ writes patches,
          u.1 ≠ w.1 := by
        intro u hu w hw same
        obtain ⟨_, hl, mem⟩ := List.mem_flatten.mp hu
        obtain ⟨d, hd, rfl⟩ := List.mem_map.mp hl
        exact Emission.ne_of_not_sharesPath (ordered rfl d hd) w hw u mem same.symm
      have above : since < cell.scene.nextSeq := Nat.lt_succ_of_le reached
      have calls : unnumbered cell.calls =
          unnumbered before ++ ⟨patches, cause, .number⟩ :: unnumbered after := by
        rw [split]
        simp [Emission.unnumbered]
      have calls' : unnumbered cell'.calls = unnumbered before ++ unnumbered after := by
        rw [next]
        simp [Emission.step, Emission.unnumbered]
      have store : cell'.scene.store = cell.scene.store := by rw [next]; rfl
      rw [Restores, owed, calls, List.map_append, List.map_cons] at restores
      rw [Restores, owed, history, List.filter_append, calls', store, ← restores]
      refine Eq.trans ?_ (overwrite_writesOf_swap state _ _ apart).symm
      simp [Emission.numbers, above, DeltaPayload.batch]
  | push seq =>
      refine restores.congr (history.trans (List.append_nil _)) ?_ (by rw [next]; rfl)
      rw [next, split]
      simp [Emission.step, Emission.unnumbered]
  | send seq =>
      refine restores.congr (history.trans (List.append_nil _)) ?_ (by rw [next]; rfl)
      rw [next, split]
      simp [Emission.step, Emission.unnumbered]

theorem step (restores : Restores since state cell) (published : cell.Published)
    (reached : since ≤ cell.scene.seq) (inTurn : cell.InTurn a) (h : cell.step a = some cell') :
    Restores since state cell' := by
  have history := (published.publishes inTurn.1 h).history
  cases a with
  | emit caller pairs cause =>
      obtain ⟨_, rfl | ⟨patches, _, rfl⟩⟩ := step_emit h
      · exact restores
      · refine restores.congr (history.trans (List.append_nil _)) ?_ rfl
        simp [Emission.unnumbered]
  | progress caller =>
      obtain ⟨e, found, next⟩ := step_progress h
      obtain ⟨before, after, split, others, earlier⟩ := emission_eq_some published.distinct found
      rw [numbers, found] at history
      refine restores.progress reached split history (fun written d hd => ?_) (by rw [next, others])
      exact inTurn.2 e found written d (by rwa [earlier])
  | change | reject | withOperatorInputs =>
      cases h
      exact restores.congr (history.trans (List.append_nil _)) rfl rfl

/-- What is owed above a lower number starts with what is numbered in between. -/
theorem owed_eq_append (published : cell.Published) {n m : Nat} (le : n ≤ m) :
    owed n cell = (between DeltaPayload.seq n m cell.history).map DeltaPayload.batch ++
      owed m cell := by
  rw [owed, ← between_append_above published.increasing le, List.map_append, List.append_assoc]
  rfl

/-- The store itself has everything from any number on. -/
theorem store (restores : Restores since state cell) (published : cell.Published) {n : Nat}
    (le : since ≤ n) : Restores n cell.scene.store cell := by
  rw [Restores, ← restores, owed_eq_append published le, writesOf_append, overwrite_append,
    overwrite_of_subset _ (List.Subset.refl _)]

end Restores

/-- The state restores the store from every number between `base` and `since`. -/
def Keeps (base since : Nat) (state : State) (cell : SceneCell Text) : Prop :=
  ∀ n, base ≤ n → n ≤ since → Restores n state cell

namespace Keeps

variable {base since : Nat} {state : State} {cell cell' : SceneCell Text} {a : SceneAction}

theorem step (keeps : Keeps base since state cell) (published : cell.Published)
    (reached : since ≤ cell.scene.seq) (inTurn : cell.InTurn a) (h : cell.step a = some cell') :
    Keeps base since state cell' :=
  fun n low high => (keeps n low high).step published (Nat.le_trans high reached) inTurn h

/-- Batches of the history above a number are owed from there on. -/
theorem writesOf_subset {deltas : List DeltaPayload} {n : Nat}
    (numbered : ∀ p ∈ deltas, p ∈ cell.history ∧ n < p.seq) :
    writesOf (deltas.map DeltaPayload.batch) ⊆ writesOf (owed n cell) := by
  intro w member
  obtain ⟨batch, found, inside⟩ := List.mem_flatten.mp member
  obtain ⟨p, delta, rfl⟩ := List.mem_map.mp found
  obtain ⟨held, above⟩ := numbered p delta
  refine List.mem_flatten.mpr ⟨p.batch, List.mem_append_left _ (List.mem_map_of_mem ?_), inside⟩
  exact List.mem_filter.mpr ⟨held, decide_eq_true above⟩

/-- Folding what is numbered up to a later number. -/
theorem fold (keeps : Keeps base since state cell) (published : cell.Published)
    (started : base ≤ since) (upto : Nat) :
    Keeps base upto (overwrite state (writesOf
      ((between DeltaPayload.seq since upto cell.history).map DeltaPayload.batch))) cell := by
  intro n low high
  have repeated {m : Nat} (above : n ≤ m) :
      writesOf ((between DeltaPayload.seq m upto cell.history).map DeltaPayload.batch) ⊆
        writesOf (owed n cell) := by
    refine writesOf_subset fun p member => ?_
    obtain ⟨held, inside⟩ := List.mem_filter.mp member
    exact ⟨held, Nat.lt_of_le_of_lt above (of_decide_eq_true inside).1⟩
  rcases Nat.le_total n since with early | late
  · rw [Restores, overwrite_of_subset _ (repeated early)]
    exact keeps n low early
  · rw [Restores, ← between_append_between published.increasing late high, List.map_append,
      writesOf_append, overwrite_append, overwrite_of_subset _ (repeated (Nat.le_refl n)),
      ← overwrite_append, ← writesOf_append, ← Restores.owed_eq_append published late]
    exact keeps since started (Nat.le_refl since)

end Keeps
end SceneCell
end Lumencast.Server
