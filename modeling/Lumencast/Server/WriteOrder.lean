import Mathlib.Data.List.Sort
import Lumencast.Server.SceneCell

/-!
# The order of store writes and the order of numbers

An emission writes the store before it takes its number, and another emission
may come between. The numbers then disagree with the order of the writes, and
folding the deltas by number ends in a different store.

The invariant keeps a log of the numbered emissions, in the order of their
numbers, followed by the calls that have written and hold no number, in the
order of their writes. Replaying both gives the store. Only the step that takes
a number can break it, when the caller overtakes an earlier writer of one of its
paths.
-/

namespace Lumencast.Server

open Foundation Protocol

variable {Text : Type}

/-- The pairs that a delta writes. -/
def DeltaPayload.writes (p : DeltaPayload) : List (String × Value) := Server.writes p.patches

/-- Deltas sorted by their numbers. -/
def inSeqOrder (deltas : List DeltaPayload) : List DeltaPayload :=
  deltas.mergeSort fun p q => p.seq ≤ q.seq

namespace Emission

/-- The delta of an emission that holds its number. -/
def payload (e : Emission) : Option DeltaPayload :=
  e.number.map fun seq => ⟨seq, e.patches, e.cause⟩

/-- Two emissions have a path in common. -/
def sharesPath (e d : Emission) : Bool :=
  e.patches.any fun p => d.patches.any fun q => p.path = q.path

theorem ne_of_not_sharesPath {e d : Emission} (h : e.sharesPath d = false) :
    ∀ u ∈ writes e.patches, ∀ w ∈ writes d.patches, u.1 ≠ w.1 := by
  intro u hu w hw same
  obtain ⟨p, hp, rfl⟩ := List.mem_map.mp hu
  obtain ⟨q, hq, rfl⟩ := List.mem_map.mp hw
  have path : p.path = q.path := congrArg LeafPath.mk same
  have shared : e.sharesPath d = true :=
    List.any_eq_true.mpr ⟨p, hp, List.any_eq_true.mpr ⟨q, hq, decide_eq_true path⟩⟩
  rw [h] at shared
  cases shared

end Emission

namespace SceneCell

/-- The calls that have written the store and hold no number, in the order of their writes. -/
def unnumbered (calls : List (Caller × Emission)) : List Emission :=
  (calls.map (·.2)).filter Emission.unnumbered

/-- The deltas of the calls that hold a number. -/
def numbered (calls : List (Caller × Emission)) : List DeltaPayload :=
  calls.filterMap fun call => call.2.payload

@[simp] theorem unnumbered_append (l r : List (Caller × Emission)) :
    unnumbered (l ++ r) = unnumbered l ++ unnumbered r := by
  simp [unnumbered]

@[simp] theorem numbered_append (l r : List (Caller × Emission)) :
    numbered (l ++ r) = numbered l ++ numbered r :=
  List.filterMap_append

@[simp] theorem unnumbered_cons (call : Caller × Emission) (calls : List (Caller × Emission)) :
    unnumbered (call :: calls) =
      if call.2.unnumbered then call.2 :: unnumbered calls else unnumbered calls := by
  simp [unnumbered, List.filter_cons]

@[simp] theorem unnumbered_nil : unnumbered [] = [] := rfl

@[simp] theorem numbered_nil : numbered [] = [] := rfl

theorem numbered_cons (call : Caller × Emission) (calls : List (Caller × Emission)) :
    numbered (call :: calls) = call.2.payload.toList ++ numbered calls := by
  cases h : call.2.payload <;> simp [numbered, h]

/-- The caller takes its number before no earlier writer of one of its paths. -/
def NumberedInWriteOrder (cell : SceneCell Text) : SceneAction → Prop
  | .progress caller =>
      ∀ e ∈ cell.emission caller, e.unnumbered →
        ∀ earlier ∈ unnumbered (cell.calls.takeWhile fun call => call.1 ≠ caller),
          e.sharesPath earlier = false
  | _ => True

instance (cell : SceneCell Text) : (a : SceneAction) → Decidable (cell.NumberedInWriteOrder a)
  | .progress caller => inferInstanceAs (Decidable (∀ e ∈ cell.emission caller, e.unnumbered →
      ∀ earlier ∈ unnumbered (cell.calls.takeWhile fun call => call.1 ≠ caller),
        e.sharesPath earlier = false))
  | .emit .. | .change | .reject .. | .withOperatorInputs _ => isTrue trivial

/-- The history that explains the store of a cell, from the state it started in:
`log` holds the emissions that have a number, sent or not. -/
structure Explains (start : State) (sent : List DeltaPayload) (cell : SceneCell Text)
    (log emitted : List DeltaPayload) : Prop where
  sent : cell.scene.tx.sent = sent ++ emitted
  numbers : log.Perm (emitted ++ numbered cell.calls)
  increasing : log.Pairwise fun p q => p.seq < q.seq
  bounded : ∀ p ∈ log, p.seq ≤ cell.scene.seq
  store : cell.scene.store =
    overwrite start (writesOf (log.map DeltaPayload.writes ++
      (unnumbered cell.calls).map fun e => writes e.patches))

namespace Explains

variable {start : State} {sent log emitted : List DeltaPayload} {cell cell' : SceneCell Text}

/-- The four locked steps of one call, at its place among the calls in progress. -/
theorem progress {caller : Caller} {e : Emission} {before after : List (Caller × Emission)}
    (explains : Explains start sent cell log emitted)
    (split : cell.calls = before ++ (caller, e) :: after)
    (ordered : e.unnumbered → ∀ earlier ∈ unnumbered before, e.sharesPath earlier = false)
    (next : cell' = { scene := (e.step cell.scene).1
                      calls := before ++ after ++
                        ((e.step cell.scene).2.map fun e => (caller, e)).toList }) :
    ∃ log emitted, Explains start sent cell' log emitted := by
  obtain ⟨sentEq, numbers, increasing, bounded, store⟩ := explains
  rw [split] at numbers store
  obtain ⟨patches, cause, stage⟩ := e
  cases stage with
  | write =>
      refine ⟨log, emitted, ?_⟩
      subst next
      refine ⟨sentEq, ?_, increasing, bounded, ?_⟩
      · simpa [Emission.step, numbered_cons, Emission.payload, Emission.number] using numbers
      · simp only [Emission.unnumbered, unnumbered_append, unnumbered_cons, reduceCtorEq,
          decide_false, Bool.false_eq_true, if_false] at store
        simp only [Emission.step, Scene.applyPatches, store, writesOf]
        simp [Emission.unnumbered, overwrite_append]
  | number =>
      refine ⟨log ++ [⟨cell.scene.nextSeq, patches, cause⟩], emitted, ?_⟩
      have fresh : ∀ p ∈ log, p.seq < cell.scene.nextSeq := fun p hp =>
        Nat.lt_succ_of_le (bounded p hp)
      subst next
      refine ⟨sentEq, ?_, ?_, ?_, ?_⟩
      · simp only [numbered_append, numbered_cons, Emission.payload, Emission.number,
          Option.map_none, Option.toList_none, List.nil_append] at numbers
        simp only [Emission.step, numbered_append, numbered_cons, Option.map_some,
          Option.toList_some, Emission.payload, Emission.number, numbered_nil, List.append_nil,
          List.append_assoc]
        simpa only [List.append_assoc] using numbers.append_right [_]
      · simpa [List.pairwise_append, increasing] using fresh
      · intro p hp
        rcases List.mem_append.mp hp with old | new
        · exact Nat.le_of_lt (fresh p old)
        · rw [List.mem_singleton.mp new]
          exact Nat.le_refl _
      · -- the caller's writes move in front of those of the earlier writers
        have apart : ∀ u ∈ writesOf ((unnumbered before).map fun e => writes e.patches),
            ∀ w ∈ writes patches, u.1 ≠ w.1 := by
          intro u hu w hw same
          obtain ⟨_, hl, mem⟩ := List.mem_flatten.mp hu
          obtain ⟨d, hd, rfl⟩ := List.mem_map.mp hl
          exact Emission.ne_of_not_sharesPath (ordered rfl d hd) w hw u mem same.symm
        simp only [Emission.unnumbered, unnumbered_append, unnumbered_cons, decide_true, if_true,
          List.map_append, List.map_cons] at store
        rw [overwrite_writesOf_swap start _ _ apart] at store
        simp only [Emission.step, Scene.advanceSeq, store]
        simp [Emission.unnumbered, DeltaPayload.writes]
  | push seq =>
      refine ⟨log, emitted, ?_⟩
      subst next
      refine ⟨sentEq, numbers.trans ?_, increasing, bounded, ?_⟩
      · simp only [Emission.step, numbered_append, numbered_cons, Option.map_some,
          Option.toList_some, Emission.payload, Emission.number, numbered_nil, List.append_nil,
          List.append_assoc]
        exact (List.perm_append_comm.append_left _).append_left _
      · simp only [Emission.step, Scene.pushReplay, store]
        simp [Emission.unnumbered]
  | send seq =>
      refine ⟨log, emitted ++ [⟨seq, patches, cause⟩], ?_⟩
      subst next
      refine ⟨?_, numbers.trans ?_, increasing, bounded, ?_⟩
      · simp [Emission.step, Scene.sendDelta, sentEq]
      · simp only [Emission.step, numbered_append, numbered_cons, Option.map_some, Option.map_none,
          Option.toList_some, Option.toList_none, Emission.payload, Emission.number,
          List.append_nil, List.append_assoc]
        refine List.Perm.append_left _ ?_
        exact List.perm_append_comm_assoc _ _ _
      · simp only [Emission.step, Scene.sendDelta, store]
        simp [Emission.unnumbered]

theorem step {a : SceneAction} (distinct : cell.Distinct)
    (explains : Explains start sent cell log emitted) (ordered : cell.NumberedInWriteOrder a)
    (h : cell.step a = some cell') : ∃ log emitted, Explains start sent cell' log emitted := by
  cases a with
  | emit caller pairs cause =>
      obtain ⟨_, rfl | ⟨patches, _, rfl⟩⟩ := step_emit h
      · exact ⟨log, emitted, explains⟩
      · obtain ⟨sentEq, numbers, increasing, bounded, store⟩ := explains
        refine ⟨log, emitted, sentEq, ?_, increasing, bounded, ?_⟩
        · simpa [numbered_cons, Emission.payload, Emission.number] using numbers
        · simpa [Emission.unnumbered] using store
  | progress caller =>
      obtain ⟨e, found, next⟩ := step_progress h
      obtain ⟨before, after, split, others, earlier⟩ := emission_eq_some distinct found
      refine explains.progress split (fun written d hd => ?_) (by rw [next, others])
      exact ordered e found written d (by rwa [earlier])
  | change =>
      obtain ⟨sentEq, numbers, increasing, bounded, store⟩ := explains
      cases h
      exact ⟨log, emitted, sentEq, numbers, increasing,
        fun p hp => Nat.le_succ_of_le (bounded p hp), store⟩
  | reject code message =>
      cases h
      exact ⟨log, emitted, explains.sent, explains.numbers, explains.increasing,
        explains.bounded, explains.store⟩
  | withOperatorInputs specs =>
      cases h
      exact ⟨log, emitted, explains.sent, explains.numbers, explains.increasing,
        explains.bounded, explains.store⟩

end Explains

/-- The log of a quiescent cell is what it sent, sorted by number. -/
theorem inSeqOrder_eq {deltas log : List DeltaPayload} (perm : log.Perm deltas)
    (increasing : log.Pairwise fun p q => p.seq < q.seq) : inSeqOrder deltas = log := by
  have sorted : (inSeqOrder deltas).Pairwise fun p q => (p.seq ≤ q.seq : Bool) = true :=
    List.pairwise_mergeSort (fun p q r => by simpa using Nat.le_trans)
      (fun p q => by simpa using Nat.le_total p.seq q.seq) deltas
  have sorted' : log.Pairwise fun p q => (p.seq ≤ q.seq : Bool) = true :=
    increasing.imp fun h => by simpa using Nat.le_of_lt h
  refine List.Perm.eq_of_pairwise ?_ sorted sorted'
    ((List.mergeSort_perm deltas _).trans perm.symm)
  intro p q hp hq le ge
  have distinct : (log.map (·.seq)).Nodup :=
    List.pairwise_map.mpr (increasing.imp fun lt => Nat.ne_of_lt lt)
  exact List.inj_on_of_nodup_map distinct (perm.mem_iff.mpr (List.mem_mergeSort.mp hp)) hq
    (Nat.le_antisymm (by simpa using le) (by simpa using ge))

/-- Once every call has returned, the store is the initial store with the
emitted deltas applied by increasing number, in every run in which no caller
takes its number before an earlier writer of one of its paths. -/
theorem store_eq_deltas_in_seqOrder {start stop : SceneCell Text} {schedule : List SceneAction}
    (idle : start.calls = []) (ordered : Along step NumberedInWriteOrder start schedule)
    (reach : run step start schedule = some stop) (returned : stop.calls = []) :
    stop.scene.store = overwrite start.scene.store
      (writesOf ((inSeqOrder (stop.scene.tx.sent.drop start.scene.tx.sent.length)).map
        DeltaPayload.writes)) := by
  let invariant (cell : SceneCell Text) : Prop := cell.Distinct ∧
    ∃ log emitted, Explains start.scene.store start.scene.tx.sent cell log emitted
  have initially : invariant start := by
    refine ⟨by simp [Distinct, idle], [], [], by simp, ?_, List.Pairwise.nil, by simp, ?_⟩
    · simp [idle]
    · simp [idle, writesOf]
  have finally_ : invariant stop := by
    refine Along.invariant (I := invariant) ?_ initially ordered reach
    rintro cell a next ⟨distinct, log, emitted, explains⟩ condition h
    exact ⟨distinct.step h, explains.step distinct condition h⟩
  obtain ⟨_, log, emitted, sentEq, numbers, increasing, _, store⟩ := finally_
  simp only [returned, numbered_nil, List.append_nil] at numbers
  rw [sentEq, List.drop_left, inSeqOrder_eq numbers increasing, store]
  simp [returned]

/-- Two emissions that write one path, each its own value. -/
private def overlapping : List SceneAction :=
  [.emit (.adapter 0) [("lamp", .bool false)] none, .emit (.adapter 1) [("lamp", .bool true)] none,
    .progress (.adapter 0), .progress (.adapter 1)]

/-- The writer that came first takes its number first. -/
private def inOrder : List SceneAction :=
  overlapping ++ [.progress (.adapter 0), .progress (.adapter 1), .progress (.adapter 1),
    .progress (.adapter 1), .progress (.adapter 0), .progress (.adapter 0)]

/-- The later writer overtakes the earlier one. -/
private def overtaking : List SceneAction :=
  overlapping ++ [.progress (.adapter 1), .progress (.adapter 0), .progress (.adapter 1),
    .progress (.adapter 1), .progress (.adapter 0), .progress (.adapter 0)]

private def idleScene : SceneCell Unit := { scene := Scene.new "studio" "v1" }

theorem store_eq_deltas_in_seqOrder_overlapping :
    ∃ stop, run step idleScene inOrder = some stop ∧ stop.calls = [] ∧
      stop.scene.tx.sent.map (·.seq) = [3, 2] ∧
      stop.scene.store = overwrite ∅
        (writesOf ((inSeqOrder stop.scene.tx.sent).map DeltaPayload.writes)) :=
  ⟨_, rfl, rfl, rfl,
    @store_eq_deltas_in_seqOrder _ idleScene _ inOrder rfl (by decide) rfl rfl⟩

/-- An overtaking call leaves a value in the store that the deltas do not end in. -/
theorem store_ne_deltas_of_overtaking :
    ∃ stop, run step idleScene overtaking = some stop ∧ stop.calls = [] ∧
      stop.scene.store ≠ overwrite idleScene.scene.store
        (writesOf ((inSeqOrder (stop.scene.tx.sent.drop idleScene.scene.tx.sent.length)).map
          DeltaPayload.writes)) := by
  refine ⟨_, rfl, rfl, ?_⟩
  rw [inSeqOrder_eq (List.Perm.refl _) (by decide)]
  intro same
  have lamp := congrArg (fun store => store["lamp"]?) same
  revert lamp
  decide

end SceneCell
end Lumencast.Server
