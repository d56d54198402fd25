import Mathlib.Algebra.Order.Ring.Nat
import Lumencast.Foundation.Cadence
import Lumencast.Foundation.Run
import Lumencast.Foundation.Watch
import Lumencast.Protocol.Bundle
import Lumencast.Server.BundleScenes
import Lumencast.Server.Flatten

/-!
# Periodic adapters

A periodic task waits for a deadline or for the cancel channel; at a deadline it calls a
function, emits what it returns as one delta and moves the deadline by a period, or to
the time it is then if that is later. The polling adapter is this task with a request to
an endpoint as its function.

`paced` says when the calls take place, `poll_mirrors` what the polled documents make of
the scene. Other tasks operate on the scene meanwhile, also during a call. The history
of the calls is kept beside the state; no step reads it. Times are in nanoseconds.
-/

namespace Lumencast.Server

open Foundation Protocol

variable {Text Answer : Type}

structure Periodic (Text : Type) where
  scene : Scene Text
  next : Nat
  /-- The function has been called and has not returned. -/
  calling : Bool := false
  cancel : Watch Bool
  /-- The value of the cancel channel that the receiver saw last. -/
  seen : Nat
  stopped : Bool := false
  /-- The last reading of the clock. -/
  clock : Nat
  begun : List Nat := []
  ended : List Nat := []

namespace Periodic

inductive Label (Answer Text : Type) where
  /-- The deadline has passed, and the function is called. -/
  | tick (time : Nat)
  /-- The function returns. -/
  | returned (answer : Answer) (time : Nat)
  /-- The cancel branch of the select. -/
  | changed
  | signal (signal : Watch.Signal Bool)
  /-- Another task operates on the scene. -/
  | operate (op : SceneOp Text)

/-- Emit what a call has produced. A refused emission is only logged. -/
def emitted (scene : Scene Text) (pairs : List (String × Value)) : Scene Text :=
  if pairs.isEmpty then scene else (scene.emit pairs).toOption.getD scene

/-- The deadline after one that a call at the time `now` was made for. -/
def deadlineAfter (period next now : Nat) : Nat :=
  let next := next + period
  if next < now then now else next

def step (T : TextLayer Text) (period : Nat) (pairs : Answer → List (String × Value))
    (s : Periodic Text) : Label Answer Text → Option (Periodic Text)
  | .tick time =>
      if !s.stopped && !s.calling && decide (s.next ≤ time) && decide (s.clock ≤ time) then
        some { s with calling := true, clock := time, begun := s.begun ++ [time] }
      else none
  | .returned answer time =>
      if s.calling && decide (s.clock ≤ time) then
        some { s with
          scene := emitted s.scene (pairs answer)
          next := deadlineAfter period s.next time
          calling := false
          clock := time
          ended := s.ended ++ [time] }
      else none
  | .changed =>
      if s.stopped || s.calling then none
      else
        match s.cancel.changed s.seen with
        | none => none
        | some (.error ()) => some { s with stopped := true }
        | some (.ok version) => some { s with seen := version, stopped := s.cancel.value }
  | .signal signal => some { s with cancel := s.cancel.after signal }
  | .operate op => some { s with scene := s.scene.apply T op }

/-- The task as it is spawned. -/
def spawned (scene : Scene Text) (cancel : Watch Bool) (seen now period : Nat) : Periodic Text where
  scene := scene
  next := now + period
  cancel := cancel
  seen := seen
  clock := now

end Periodic

/-- `spawn_periodic`: the function returns the pairs. -/
def spawnPeriodic (T : TextLayer Text) (period : Nat) :
    Periodic Text → Periodic.Label (List (String × Value)) Text → Option (Periodic Text) :=
  Periodic.step T period id

structure HttpPollConfig where
  interval : Nat
  /-- Leaf-path prefix the response is flattened under. -/
  writesTo : String

/-- What becomes of a request. -/
inductive Fetched (Text : Type) where
  | failed
  | response (status : Nat) (body : Text)

namespace HttpPoll

def isSuccess (status : Nat) : Bool := 200 ≤ status && status < 300

def pollOnce (T : TextLayer Text) (config : HttpPollConfig) :
    Fetched Text → List (String × Value)
  | .failed => []
  | .response status body =>
      if !isSuccess status then []
      else
        match T.fromText body with
        | .error _ => []
        | .ok value => flattenIntoPairs config.writesTo value

def spawn (T : TextLayer Text) (config : HttpPollConfig) :
    Periodic Text → Periodic.Label (Fetched Text) Text → Option (Periodic Text) :=
  Periodic.step T config.interval (pollOnce T config)

end HttpPoll

namespace Periodic

variable {T : TextLayer Text} {period : Nat} {pairs : Answer → List (String × Value)}
  {s s' : Periodic Text}

theorem step_tick {time : Nat} (h : step T period pairs s (.tick time) = some s') :
    s.calling = false ∧ s.next ≤ time ∧ s.clock ≤ time ∧
      s' = { s with calling := true, clock := time, begun := s.begun ++ [time] } := by
  obtain ⟨guard, ⟨⟩⟩ := Option.ite_none_right_eq_some.mp h
  simp only [Bool.and_eq_true, Bool.not_eq_true', decide_eq_true_eq] at guard
  exact ⟨guard.1.1.2, guard.1.2, guard.2, rfl⟩

theorem step_returned {answer : Answer} {time : Nat}
    (h : step T period pairs s (.returned answer time) = some s') :
    s.calling = true ∧ s.clock ≤ time ∧ s' = { s with
      scene := emitted s.scene (pairs answer), next := deadlineAfter period s.next time
      calling := false, clock := time, ended := s.ended ++ [time] } := by
  obtain ⟨guard, ⟨⟩⟩ := Option.ite_none_right_eq_some.mp h
  simp only [Bool.and_eq_true, decide_eq_true_eq] at guard
  exact ⟨guard.1, guard.2, rfl⟩

/-- The cancel branch touches the receiver alone. -/
theorem step_changed (h : step T period pairs s .changed = some s') :
    ∃ seen stopped, s' = { s with seen, stopped } := by
  simp only [step] at h
  split at h
  · cases h
  · split at h <;> cases h
    · exact ⟨_, _, rfl⟩
    · exact ⟨_, _, rfl⟩

/-! ## The times of the calls -/

theorem deadlineAfter_eq (period next now : Nat) :
    deadlineAfter period next now = max (next + period) now := by
  simp only [deadlineAfter]
  split
  · next late => exact (Nat.max_eq_right (Nat.le_of_lt late)).symm
  · next early => exact (Nat.max_eq_left (Nat.not_lt.mp early)).symm

/-- The calls so far are turns at the deadlines of the task. -/
structure Paced (period first : Nat) (s : Periodic Text) : Prop where
  turns : Turns period first s.begun s.ended
  next : s.next = cadence period first s.ended
  counted : s.begun.length = s.ended.length + if s.calling then 1 else 0
  last : ∀ b ∈ s.begun.getLast?, b ≤ s.clock

theorem Paced.step {first : Nat} (paced : Paced period first s) {l : Label Answer Text}
    (h : step T period pairs s l = some s') : Paced period first s' := by
  obtain ⟨turns, next, counted, last⟩ := paced
  cases l with
  | tick time =>
      obtain ⟨idle, due, _, rfl⟩ := step_tick h
      rw [idle] at counted
      refine ⟨turns.start counted (next ▸ due), next, ?_, by simp⟩
      rw [List.length_append, counted]
      rfl
  | returned answer time =>
      obtain ⟨busy, later, rfl⟩ := step_returned h
      rw [busy] at counted
      refine ⟨turns.finish counted fun b member => (last b member).trans later, ?_, ?_,
        fun b member => (last b member).trans later⟩
      · rw [cadence_concat, deadlineAfter_eq, next]
      · rw [counted, List.length_append]
        rfl
  | changed =>
      obtain ⟨_, _, rfl⟩ := step_changed h
      exact ⟨turns, next, counted, last⟩
  | signal signal =>
      cases h
      exact ⟨turns, next, counted, last⟩
  | operate op =>
      cases h
      exact ⟨turns, next, counted, last⟩

theorem Paced.run {first : Nat} {schedule : List (Label Answer Text)}
    (paced : Paced period first s)
    (reach : run (Periodic.step T period pairs) s schedule = some s') : Paced period first s' := by
  induction schedule generalizing s with
  | nil => exact Option.some.inj reach ▸ paced
  | cons l schedule ih =>
      obtain ⟨m, stepped, rest⟩ := run_cons_eq_some.mp reach
      exact ih (paced.step stepped) rest

/-- However long the calls take, they do not overlap, and at most `k + 1` of them begin within
`k` periods. The deadline is the least time that is a period after each earlier deadline and
not before the end of any call; it stays on the grid of the periods as long as every call
ends before the deadline after its own. -/
theorem paced (T : TextLayer Text) (period : Nat) (pairs : Answer → List (String × Value))
    {scene : Scene Text} {cancel : Watch Bool} {seen now : Nat}
    {schedule : List (Label Answer Text)} {stop : Periodic Text}
    (reach : run (Periodic.step T period pairs) (spawned scene cancel seen now period) schedule =
      some stop) :
    let n := stop.ended.length
    (∀ i e b : Nat, stop.ended[i]? = some e → stop.begun[i + 1]? = some b → e ≤ b) ∧
      (∀ k t, stop.begun.countP (fun b => t ≤ b ∧ b < t + k * period) ≤ k + 1) ∧
      (∀ t, stop.next ≤ t ↔ now + (n + 1) * period ≤ t ∧
        ∀ i e : Nat, stop.ended[i]? = some e → e + (n - 1 - i) * period ≤ t) ∧
      ((∀ i e : Nat, stop.ended[i]? = some e → e ≤ now + (i + 2) * period) →
        stop.next = now + (n + 1) * period) := by
  intro n
  have start : Paced period (now + period) (spawned scene cancel seen now period) :=
    ⟨.nil, rfl, rfl, by simp [spawned]⟩
  obtain ⟨turns, next, _, _⟩ := start.run reach
  have first : now + period + n * period = now + (n + 1) * period := by
    rw [Nat.add_assoc, Nat.add_comm period, Nat.succ_mul]
  have least : ∀ t, stop.next ≤ t ↔ now + (n + 1) * period ≤ t ∧
      ∀ i e : Nat, stop.ended[i]? = some e → e + (n - 1 - i) * period ≤ t := by
    intro t
    rw [next, cadence_le_iff, nsmul_eq_mul, Nat.cast_id, first]
    rfl
  refine ⟨fun i e b => turns.end_le, fun k t => ?_, least, fun prompt => ?_⟩
  · exact (turns.spaced k).countP_le turns.sorted t
  · refine Nat.le_antisymm ((least _).mpr ⟨Nat.le_refl _, fun i e ended => ?_⟩)
      ((least _).mp (Nat.le_refl _)).1
    have bound := (List.getElem?_eq_some_iff.mp ended).1
    calc
      e + (n - 1 - i) * period ≤ now + (i + 2) * period + (n - 1 - i) * period :=
        Nat.add_le_add_right (prompt i e ended) _
      _ = now + (n + 1) * period := by
        rw [Nat.add_assoc, ← Nat.add_mul]
        congr 2
        omega

/-- The second call is made as soon as the first one has returned. -/
theorem paced_lateCall :
    ∃ stop, run (Periodic.step valuePlatform.toTextLayer 10 id)
        (spawned (Scene.new "lamps" "sha256:00") { value := false, version := 0, closed := false }
          0 0 10)
        [.tick 10, .signal (.send false), .returned [("lamp", .bool true)] 35, .tick 35,
          .returned [] 36, .changed] = some stop ∧
      stop.next = 45 ∧ ∀ k t, stop.begun.countP (fun b => t ≤ b ∧ b < t + k * 10) ≤ k + 1 := by
  obtain ⟨stop, reach, next⟩ : ∃ stop, run (Periodic.step valuePlatform.toTextLayer 10 id)
      (spawned (Scene.new "lamps" "sha256:00") { value := false, version := 0, closed := false }
        0 0 10)
      [.tick 10, .signal (.send false), .returned [("lamp", .bool true)] 35, .tick 35,
        .returned [] 36, .changed] = some stop ∧ stop.next = 45 := ⟨_, rfl, rfl⟩
  exact ⟨stop, reach, next, (paced _ 10 id reach).2.1⟩

/-! ## What the calls write -/

/-- The answer of a call. -/
def Label.answer? : Label Answer Text → Option Answer
  | .returned answer _ => some answer
  | .tick _ | .changed | .signal _ | .operate _ => none

/-- A list of pairs is emitted as a whole or not at all. -/
def accepted (pairs : List (String × Value)) : List (String × Value) :=
  if ∀ pair ∈ pairs, LegalEntry pair then pairs else []

theorem store_emitted (T : TextLayer Text) (scene : Scene Text) (pairs : List (String × Value)) :
    (emitted scene pairs).store = overwrite scene.store (accepted pairs) := by
  unfold emitted
  split
  · next empty =>
    rw [List.isEmpty_iff.mp empty]
    rfl
  · exact (scene.apply_emit (T := T) pairs).2.2

/-- At a path that nobody else writes, the store holds what the calls have written last. -/
theorem getElem?_store {path : String} {schedule : List (Label Answer Text)}
    (alone : ∀ op, Label.operate op ∈ schedule → ∀ scene : Scene Text,
      (scene.apply T op).store[path]? = scene.store[path]?)
    (reach : run (Periodic.step T period pairs) s schedule = some s') :
    s'.scene.store[path]? =
      (lastWrite compare ((schedule.filterMap Label.answer?).flatMap fun a => accepted (pairs a))
        path).or s.scene.store[path]? := by
  induction schedule generalizing s with
  | nil =>
      obtain rfl := Option.some.inj reach
      rfl
  | cons l schedule ih =>
      obtain ⟨m, stepped, rest⟩ := run_cons_eq_some.mp reach
      have later := ih (fun op member => alone op (List.mem_cons_of_mem l member)) rest
      rw [later]
      cases l with
      | tick time =>
          obtain ⟨_, _, _, rfl⟩ := step_tick stepped
          rfl
      | returned answer time =>
          obtain ⟨_, _, rfl⟩ := step_returned stepped
          have first : (Label.returned answer time :: schedule).filterMap Label.answer? =
              answer :: schedule.filterMap Label.answer? := rfl
          have now : (emitted s.scene (pairs answer)).store[path]? =
              (lastWrite compare (accepted (pairs answer)) path).or s.scene.store[path]? := by
            rw [store_emitted T, getElem?_overwrite]
          rw [first, List.flatMap_cons, lastWrite_append, Option.or_assoc, ← now]
      | changed =>
          obtain ⟨_, _, rfl⟩ := step_changed stepped
          rfl
      | signal signal =>
          cases stepped
          rfl
      | operate op =>
          cases stepped
          rw [alone op List.mem_cons_self]
          rfl

end Periodic

namespace HttpPoll

variable {T : TextLayer Text} {config : HttpPollConfig}

/-- The document that a request brings. -/
def document (T : TextLayer Text) : Fetched Text → Option Value
  | .failed => none
  | .response status body => if isSuccess status then (T.fromText body).toOption else none

theorem pollOnce_eq (answer : Fetched Text) :
    pollOnce T config answer =
      ((document T answer).map (flattenIntoPairs config.writesTo)).getD [] := by
  cases answer with
  | failed => rfl
  | response status body =>
      simp only [pollOnce, document]
      cases isSuccess status
      · rfl
      · cases T.fromText body <;> rfl

/-- A path of keys beneath the root is written by the leaf at these keys. -/
theorem lastWrite_flattenIntoPairs {root : String} (nonempty : root ≠ "") {v : Value}
    (sorted : v.isSorted = true) (undotted : ∀ key, HasKey v key → '.' ∉ key.toList)
    {keys : List String} (plain : ∀ k ∈ keys, '.' ∉ k.toList) :
    lastWrite compare (flattenIntoPairs root v) (pathOf root keys) = v.leaves.lookup keys := by
  have apart : ∀ leaf ∈ v.leaves, pathOf root leaf.1 = pathOf root keys → leaf.1 = keys :=
    fun leaf member => pathOf_injective root (undotted_of_leafAt undotted (mem_leaves.mp member))
      plain
  have distinct := nodup_leaves sorted
  rw [flattenIntoPairs_eq nonempty]
  generalize v.leaves = leaves at apart distinct
  induction leaves with
  | nil => rfl
  | cons leaf leaves ih =>
      obtain ⟨fresh, distinct⟩ := List.nodup_cons.mp distinct
      have rest := ih (fun other member => apart other (List.mem_cons_of_mem leaf member)) distinct
      rw [List.map_cons, lastWrite, rest, List.lookup_cons]
      by_cases here : leaf.1 = keys
      · subst here
        have absent : leaves.lookup leaf.1 = none := by
          rw [List.lookup_eq_none_iff]
          intro other member
          simpa using fun same => fresh (List.mem_map.mpr ⟨other, member, same.symm⟩)
        simp [absent, pairOf]
      · have elsewhere : compare (pathOf root leaf.1) (pathOf root keys) ≠ .eq := fun same =>
          here (apart leaf List.mem_cons_self (Std.LawfulEqOrd.eq_of_compare same))
        rw [pairOf, if_neg elsewhere, Option.or_none, beq_eq_false_iff_ne.mpr (Ne.symm here)]

/-- The documents that the calls of a schedule have brought. -/
def documents (T : TextLayer Text) (schedule : List (Periodic.Label (Fetched Text) Text)) :
    List Value :=
  (schedule.filterMap Periodic.Label.answer?).filterMap (document T)

/-- The documents that the scene has taken. -/
def taken (T : TextLayer Text) (config : HttpPollConfig)
    (schedule : List (Periodic.Label (Fetched Text) Text)) : List Value :=
  (documents T schedule).filter fun v =>
    ∀ pair ∈ flattenIntoPairs config.writesTo v, LegalEntry pair

/-- Beneath a legal root a document with identifiers and indices for keys is taken. -/
theorem legal_flattenIntoPairs {root : String} (valid : LeafPath.Valid root) {v : Value}
    (tokens : ∀ key, HasKey v key → IsIdent key.toList ∨ IsNumeral key.toList) :
    ∀ pair ∈ flattenIntoPairs root v, LegalEntry pair := by
  intro pair member
  rw [flattenIntoPairs_eq (LeafPath.valid_iff.mp valid).nonempty] at member
  obtain ⟨leaf, among, rfl⟩ := List.mem_map.mp member
  have there := mem_leaves.mp among
  exact ⟨valid_pathOf valid fun key above => tokens key (there.hasKey key above), there.isObject⟩

/-- The calls write what the documents hold. -/
theorem flatMap_pollOnce (answers : List (Fetched Text)) :
    answers.flatMap (fun a => Periodic.accepted (pollOnce T config a)) =
      (answers.filterMap (document T)).flatMap
        fun v => Periodic.accepted (flattenIntoPairs config.writesTo v) := by
  induction answers with
  | nil => rfl
  | cons answer answers ih =>
      rw [List.flatMap_cons, ih, pollOnce_eq, List.filterMap_cons]
      cases document T answer with
      | none => rfl
      | some v => rfl

/-- Of several documents the last one that has the leaf counts. -/
theorem lastWrite_documents {root : String} (nonempty : root ≠ "") {docs : List Value}
    (formed : ∀ v ∈ docs.filter (fun v => ∀ pair ∈ flattenIntoPairs root v, LegalEntry pair),
      v.isSorted = true ∧ ∀ key, HasKey v key → '.' ∉ key.toList)
    {keys : List String} (plain : ∀ k ∈ keys, '.' ∉ k.toList) :
    lastWrite compare (docs.flatMap fun v => Periodic.accepted (flattenIntoPairs root v))
        (pathOf root keys) =
      (docs.filter fun v => ∀ pair ∈ flattenIntoPairs root v, LegalEntry pair).reverse.findSome?
        fun v => v.leaves.lookup keys := by
  induction docs with
  | nil => rfl
  | cons v docs ih =>
      rw [List.flatMap_cons, lastWrite_append, Periodic.accepted]
      by_cases legal : ∀ pair ∈ flattenIntoPairs root v, LegalEntry pair
      · rw [List.filter_cons_of_pos (by simpa using legal)] at formed ⊢
        obtain ⟨⟨sorted, undotted⟩, rest⟩ := List.forall_mem_cons.mp formed
        rw [if_pos legal, lastWrite_flattenIntoPairs nonempty sorted undotted plain, ih rest,
          List.reverse_cons, List.findSome?_append, List.findSome?_singleton]
      · rw [List.filter_cons_of_neg (by simpa using legal)] at formed ⊢
        rw [if_neg legal, ih formed]
        exact Option.or_none

/-- Where nobody else writes, a polled scene mirrors its source: it holds the value that the
last document with this leaf had there, and keeps it when the leaf is missing from later
ones. A document that the scene does not take as a whole counts for nothing; under a legal
prefix, every document whose keys are identifiers and indices is taken. -/
theorem poll_mirrors (T : TextLayer Text) {config : HttpPollConfig}
    (nonempty : config.writesTo ≠ "") {start stop : Periodic Text}
    {schedule : List (Periodic.Label (Fetched Text) Text)}
    (reach : run (spawn T config) start schedule = some stop)
    (formed : ∀ v ∈ taken T config schedule,
      v.isSorted = true ∧ ∀ key, HasKey v key → '.' ∉ key.toList)
    {keys : List String} (plain : ∀ k ∈ keys, '.' ∉ k.toList)
    (alone : ∀ op, Periodic.Label.operate op ∈ schedule → ∀ scene : Scene Text,
      (scene.apply T op).store[pathOf config.writesTo keys]? =
        scene.store[pathOf config.writesTo keys]?) :
    stop.scene.store[pathOf config.writesTo keys]? =
        ((taken T config schedule).reverse.findSome? fun v => v.leaves.lookup keys).or
          start.scene.store[pathOf config.writesTo keys]? ∧
      (LeafPath.Valid config.writesTo →
        (∀ v ∈ documents T schedule, ∀ key, HasKey v key →
          IsIdent key.toList ∨ IsNumeral key.toList) →
        taken T config schedule = documents T schedule) := by
  constructor
  · rw [Periodic.getElem?_store alone reach, flatMap_pollOnce, ← documents,
      lastWrite_documents nonempty formed plain, ← taken]
  · intro valid tokens
    refine List.filter_eq_self.mpr fun v member => ?_
    simpa using legal_flattenIntoPairs valid (tokens v member)

/-- The document of one side. -/
private def scoreOf (side : String) (goals : Nat) : Value :=
  .object [("score", .object [(side, natValue goals)])]

/-- A document is followed by a failure, and by one without the leaf. -/
theorem poll_mirrors_scores :
    let T := valuePlatform.toTextLayer
    let config : HttpPollConfig := { interval := 10, writesTo := "match" }
    ∃ stop, run (spawn T config) (Periodic.spawned (Scene.new "game" "sha256:00")
        { value := false, version := 0, closed := false } 0 0 10)
        [.tick 10, .returned (.response 200 (scoreOf "home" 3)) 12, .operate .advanceSeqForChange,
          .tick 20, .returned .failed 20, .tick 31,
          .returned (.response 200 (scoreOf "away" 1)) 33] = some stop ∧
      stop.scene.store["match.score.home"]? = some (natValue 3) := by
  intro T config
  obtain ⟨stop, reach⟩ : ∃ stop, run (spawn T config) (Periodic.spawned
      (Scene.new "game" "sha256:00") { value := false, version := 0, closed := false } 0 0 10)
      [.tick 10, .returned (.response 200 (scoreOf "home" 3)) 12, .operate .advanceSeqForChange,
        .tick 20, .returned .failed 20, .tick 31,
        .returned (.response 200 (scoreOf "away" 1)) 33] = some stop := ⟨_, rfl⟩
  have has : ∀ side goals key, HasKey (scoreOf side goals) key → key = "score" ∨ key = side := by
    intro side goals key
    have scalar : ¬HasKey (natValue goals) key := HasKey.not_of_leaf rfl key
    simp only [scoreOf, HasKey.object, List.mem_singleton, exists_eq_left, scalar, or_false]
    exact id
  have plain : ∀ k ∈ ["score", "home"], '.' ∉ k.toList := by decide
  refine ⟨stop, reach, (poll_mirrors T (by decide) reach ?_ plain ?_).1.trans (by decide)⟩
  · intro v member
    have fetched : v ∈ [scoreOf "home" 3, scoreOf "away" 1] := List.mem_of_mem_filter member
    have undotted : ∀ k ∈ ["score", "home", "away"], '.' ∉ k.toList := by decide
    rcases List.mem_pair.mp fetched with rfl | rfl
    · refine ⟨by decide, fun key there => undotted key ?_⟩
      rcases has _ _ key there with rfl | rfl <;> simp
    · refine ⟨by decide, fun key there => undotted key ?_⟩
      rcases has _ _ key there with rfl | rfl <;> simp
  · intro op member scene
    simp only [List.mem_cons, List.not_mem_nil, reduceCtorEq, false_or, or_false,
      Periodic.Label.operate.injEq] at member
    rw [member]
    rfl

end HttpPoll
end Lumencast.Server
