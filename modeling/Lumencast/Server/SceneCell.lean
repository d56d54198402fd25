import Lumencast.Foundation.Run
import Lumencast.Server.Scene

/-!
# Concurrent emissions on one scene

A `SceneCell` is a scene together with the emissions in progress on it. An action
is one locked step of one party: a caller begins an emission, a caller takes the
next locked step of its emission, a migrating connection advances the counter,
or the scene is configured. Every list of actions is a schedule.

Calls in progress are listed least recently advanced first. The order is not
read by any step; it records in which order the calls wrote the store.
-/

namespace Lumencast.Server

open Foundation Protocol

variable {Text : Type}

/-- Who runs an emission: an adapter task, or the handler of a connection. -/
inductive Caller where
  | adapter (n : Nat)
  | handler (c : Nat)
  deriving DecidableEq, Repr

inductive SceneAction where
  /-- A call of `emit_with_cause`, `emit` or `set` validates its pairs and begins. -/
  | emit (caller : Caller) (pairs : List (String × Value)) (cause : Option Cause)
  | progress (caller : Caller)
  /-- `advance_seq_for_change`. -/
  | change
  | reject (code : ErrorCode) (message : String)
  | withOperatorInputs (specs : List InputSpec)
  deriving DecidableEq

structure SceneCell (Text : Type) where
  scene : Scene Text
  calls : List (Caller × Emission) := []

namespace SceneCell

def emission (cell : SceneCell Text) (caller : Caller) : Option Emission :=
  cell.calls.lookup caller

/-- The calls of everybody else. -/
def others (cell : SceneCell Text) (caller : Caller) : List (Caller × Emission) :=
  cell.calls.filter fun call => call.1 ≠ caller

def step (cell : SceneCell Text) : SceneAction → Option (SceneCell Text)
  | .emit caller pairs cause =>
      if (cell.emission caller).isSome then none
      else
        match parsePairs pairs with
        | .error _ | .ok [] => some cell
        | .ok patches => some { cell with calls := cell.calls ++ [(caller, { patches, cause })] }
  | .progress caller =>
      match cell.emission caller with
      | none => none
      | some e =>
          let (scene, next) := e.step cell.scene
          some { scene, calls := cell.others caller ++ (next.map fun e => (caller, e)).toList }
  | .change => some { cell with scene := cell.scene.advanceSeq }
  | .reject code message => some { cell with scene := cell.scene.reject code message }
  | .withOperatorInputs specs => some { cell with scene := cell.scene.withOperatorInputs specs }

/-- A call that begins leaves the scene alone. -/
theorem step_emit {cell cell' : SceneCell Text} {caller : Caller} {pairs : List (String × Value)}
    {cause : Option Cause} (h : cell.step (.emit caller pairs cause) = some cell') :
    cell.emission caller = none ∧
      (cell' = cell ∨ ∃ patches, parsePairs pairs = .ok patches ∧
        cell' = { cell with calls := cell.calls ++ [(caller, { patches, cause })] }) := by
  simp only [step] at h
  split at h
  · cases h
  · next free =>
    refine ⟨by simpa using free, ?_⟩
    split at h
    · exact .inl (Option.some.inj h).symm
    · exact .inl (Option.some.inj h).symm
    · next patches _ parsed => exact .inr ⟨patches, parsed, (Option.some.inj h).symm⟩

theorem step_progress {cell cell' : SceneCell Text} {caller : Caller}
    (h : cell.step (.progress caller) = some cell') :
    ∃ e, cell.emission caller = some e ∧
      cell' = { scene := (e.step cell.scene).1
                calls := cell.others caller ++
                  ((e.step cell.scene).2.map fun e => (caller, e)).toList } := by
  simp only [step] at h
  split at h
  · cases h
  · next e found => exact ⟨e, found, (Option.some.inj h).symm⟩

/-- No caller has two emissions in progress. -/
def Distinct (cell : SceneCell Text) : Prop :=
  (cell.calls.map (·.1)).Nodup

theorem emission_eq_none {cell : SceneCell Text} {caller : Caller} :
    cell.emission caller = none ↔ caller ∉ cell.calls.map (·.1) := by
  rw [emission, List.lookup_eq_none_iff]
  constructor
  · intro absent member
    obtain ⟨call, found, rfl⟩ := List.mem_map.mp member
    simpa using absent call found
  · intro absent call found
    have different : caller ≠ call.1 := fun same =>
      absent (List.mem_map.mpr ⟨call, found, same.symm⟩)
    simpa using different

/-- The position of a call among the calls in progress. -/
theorem emission_eq_some {cell : SceneCell Text} {caller : Caller} {e : Emission}
    (distinct : cell.Distinct) (h : cell.emission caller = some e) :
    ∃ before after, cell.calls = before ++ (caller, e) :: after ∧
      cell.others caller = before ++ after ∧
      cell.calls.takeWhile (fun call => call.1 ≠ caller) = before := by
  obtain ⟨before, after, split, absent⟩ := List.lookup_eq_some_iff.mp h
  have apart : ∀ call ∈ before, call.1 ≠ caller := by
    intro call member same
    have := absent call member
    simp [same] at this
  have apart' : ∀ call ∈ after, call.1 ≠ caller := by
    intro call member same
    have nodup := distinct
    rw [Distinct, split, List.map_append, List.map_cons, List.nodup_append] at nodup
    exact (List.nodup_cons.mp nodup.2.1).1 (List.mem_map.mpr ⟨call, member, same⟩)
  refine ⟨before, after, split, ?_, ?_⟩
  · rw [others, split, List.filter_append, List.filter_cons_of_neg (by simp),
      List.filter_eq_self.mpr (by simpa using apart),
      List.filter_eq_self.mpr (by simpa using apart')]
  · rw [split, List.takeWhile_append_of_pos (by simpa using apart),
      List.takeWhile_cons_of_neg (by simp), List.append_nil]

theorem Distinct.step {cell cell' : SceneCell Text} {a : SceneAction} (distinct : cell.Distinct)
    (h : cell.step a = some cell') : cell'.Distinct := by
  cases a with
  | emit caller pairs cause =>
      obtain ⟨free, rfl | ⟨patches, _, rfl⟩⟩ := step_emit h
      · exact distinct
      · rw [emission_eq_none] at free
        simpa [Distinct, List.nodup_append] using ⟨distinct, fun d e member same =>
          free (List.mem_map.mpr ⟨(d, e), member, same⟩)⟩
  | progress caller =>
      obtain ⟨e, found, rfl⟩ := step_progress h
      have rest : ((cell.others caller).map (·.1)).Nodup :=
        distinct.sublist (List.filter_sublist.map _)
      have absent : ∀ call ∈ cell.others caller, call.1 ≠ caller := by
        intro call member
        simpa using (List.mem_filter.mp member).2
      cases next : (e.step cell.scene).2 with
      | none => simpa [Distinct] using rest
      | some e' =>
          simpa [Distinct, List.nodup_append, rest] using fun d e member => absent (d, e) member
  | change => cases h; exact distinct
  | reject code message => cases h; exact distinct
  | withOperatorInputs specs => cases h; exact distinct

/-- The cell after a step of the caller's emission. -/
def advance (cell : SceneCell Text) (caller : Caller) (after : Scene Text × Option Emission) :
    SceneCell Text where
  scene := after.1
  calls := cell.others caller ++ (after.2.map fun e => (caller, e)).toList

theorem progress_eq_some {cell : SceneCell Text} {caller : Caller} {e : Emission}
    (found : cell.emission caller = some e) :
    cell.step (.progress caller) = some (cell.advance caller (e.step cell.scene)) := by
  simp only [step, found]
  rfl

theorem others_advance (cell : SceneCell Text) (caller : Caller)
    (after : Scene Text × Option Emission) :
    (cell.advance caller after).others caller = cell.others caller := by
  rw [others, advance, List.filter_append, others, List.filter_filter]
  cases after.2 <;> simp

theorem advance_advance (cell : SceneCell Text) (caller : Caller)
    (before after : Scene Text × Option Emission) :
    (cell.advance caller before).advance caller after = cell.advance caller after := by
  rw [advance, others_advance, advance]

theorem emission_advance (cell : SceneCell Text) (caller : Caller)
    (after : Scene Text × Option Emission) :
    (cell.advance caller after).emission caller = after.2 := by
  have absent : (cell.others caller).lookup caller = none := by
    rw [List.lookup_eq_none_iff]
    intro call member
    have apart : call.1 ≠ caller := by simpa using (List.mem_filter.mp member).2
    simpa using apart.symm
  rw [emission, advance, List.lookup_append, absent, Option.none_or]
  cases after.2 <;> simp

/-- An emission that is not interrupted publishes its patches. -/
theorem run_emission {cell : SceneCell Text} {caller : Caller} {patches : List Patch}
    {cause : Option Cause} (found : cell.emission caller = some { patches, cause }) :
    run step cell (List.replicate 4 (.progress caller)) =
      some (cell.advance caller (cell.scene.publish patches cause, none)) := by
  simp only [List.replicate, run_cons, run_nil, progress_eq_some found, Option.bind_some]
  rw [progress_eq_some (emission_advance ..), Option.bind_some, advance_advance,
    progress_eq_some (emission_advance ..), Option.bind_some, advance_advance,
    progress_eq_some (emission_advance ..), Option.bind_some, advance_advance]
  rfl

end SceneCell
end Lumencast.Server
