import Lumencast.Protocol.Bundle
import Lumencast.Server.Role

/-!
# Namespaces and write scopes

The tests on the front of a path, compared with each other. Each of them is a
question about the first segments: the tag of a namespace, the prefix test, the
test on the operator inputs of a bundle and the write check of a role agree on
every string. A scope is monotone in its prefixes as long as it has one. An empty
scope is explicitly read as no scope.
-/

namespace Lumencast.Protocol

open Foundation

/-- The test on an operator input is the prefix test of paths. -/
theorem isInputsPath_eq (path : String) :
    isInputsPath path = (⟨path⟩ : LeafPath).startsWithPrefix "__inputs" := by
  rw [Bool.eq_iff_iff, LeafPath.startsWithPrefix_iff, isInputsPath, Bool.or_eq_true,
    decide_eq_true_iff]
  refine or_congr_right ?_
  rw [Option.isSome_iff_exists]
  have dotted (rest : List Char) :
      "__inputs.".toList ++ rest = "__inputs".toList ++ '.' :: rest := rfl
  simp only [stripPrefix_eq_some, dotted]

/-- A prefix without a dot is a question about the first segment. -/
theorem startsWithPrefix_reserved_iff {ns : Namespace} {tag head : String}
    (tagged : ns.tag = some tag) (single : segments head = ['_' :: '_' :: tag.toList])
    {path : String} :
    (⟨path⟩ : LeafPath).startsWithPrefix head = true ↔ Namespace.of path = ns := by
  rw [LeafPath.startsWithPrefix_iff_segments, Namespace.of_eq_iff tagged, single,
    List.head?_eq_some_iff]
  constructor
  · rintro ⟨rest, split⟩
    exact ⟨rest, split.symm⟩
  · rintro ⟨rest, split⟩
    exact ⟨rest, split.symm⟩

end Lumencast.Protocol

namespace Lumencast.Server

open Foundation Protocol

/-- Prefixes are compared segment by segment, and all tests for the paths of operator inputs,
like those for the paths of a test session, agree on every string. -/
theorem prefix_tests_agree (p q : String) :
    ((⟨p⟩ : LeafPath).startsWithPrefix q = true ↔ segments q <+: segments p) ∧
      ((Namespace.of p = .inputs ↔ (⟨p⟩ : LeafPath).startsWithPrefix "__inputs" = true) ∧
        (Namespace.of p = .inputs ↔ isInputsPath p = true) ∧
        ∀ scope, Namespace.of p = .inputs ↔ Role.operator.canWrite ⟨p⟩ scope = true) ∧
      ∀ scope, Namespace.of p = .test ↔ Role.test.canWrite ⟨p⟩ scope = true := by
  have inputs : (⟨p⟩ : LeafPath).startsWithPrefix "__inputs" = true ↔ Namespace.of p = .inputs :=
    startsWithPrefix_reserved_iff rfl (by decide)
  have test : (⟨p⟩ : LeafPath).startsWithPrefix "__test" = true ↔ Namespace.of p = .test :=
    startsWithPrefix_reserved_iff rfl (by decide)
  refine ⟨LeafPath.startsWithPrefix_iff_segments, ⟨inputs.symm, ?_, fun _ => ?_⟩, fun _ => ?_⟩
  · rw [isInputsPath_eq]
    exact inputs.symm
  · rw [Role.canWrite]
    exact inputs.symm
  · rw [Role.canWrite]
    exact test.symm

namespace Role

/-- An empty list of prefixes is read as no scope at all. -/
theorem canWrite_service_nil (path : LeafPath) :
    service.canWrite path (some []) = service.canWrite path none := by
  simp [canWrite]

/-- Adding prefixes to a scope that has one only adds writable paths, and every writable path
equals a prefix or continues one behind a dot. A scope without a prefix is none. -/
theorem scope_monotone {a b : List String} (sub : a ⊆ b) (path : LeafPath) :
    (a ≠ [] → service.canWrite path (some a) = true →
      service.canWrite path (some b) = true ∧
        ∃ pre ∈ a, path.str = pre ∨ ∃ rest, path.str.toList = pre.toList ++ '.' :: rest) ∧
      (a = [] → service.canWrite path (some a) = service.canWrite path none) := by
  refine ⟨fun listed writable => ?_, fun empty => ?_⟩
  · obtain ⟨inside, within⟩ := canWrite_service_iff.mp writable
    obtain ⟨pre, member, starts⟩ := within a rfl listed
    refine ⟨canWrite_service_iff.mpr ⟨inside, ?_⟩, pre, member,
      LeafPath.startsWithPrefix_iff.mp starts⟩
    rintro prefixes ⟨⟩ _
    exact ⟨pre, sub member, starts⟩
  · rw [empty, canWrite_service_nil]

theorem scope_monotone_team :
    ["__inputs.a"] ⊆ ["__inputs.b", "__inputs.a"] ∧
      service.canWrite ⟨"__inputs.a.score"⟩ (some ["__inputs.b", "__inputs.a"]) = true := by
  have sub : ["__inputs.a"] ⊆ ["__inputs.b", "__inputs.a"] := List.subset_cons_self ..
  obtain ⟨monotone, -⟩ := scope_monotone sub ⟨"__inputs.a.score"⟩
  exact ⟨sub, (monotone (by decide) (by decide)).1⟩

/-- Removing the last prefix of a scope opens every input path. -/
theorem scope_monotone_fails :
    ¬∀ (a b : List String) (path : LeafPath), a ⊆ b →
      service.canWrite path (some a) = true →
      service.canWrite path (some b) = true ∧
        ∃ pre ∈ a, path.str = pre ∨ ∃ rest, path.str.toList = pre.toList ++ '.' :: rest := by
  intro holds
  have sub : [] ⊆ ["__inputs.a"] := List.nil_subset _
  obtain ⟨writable, -⟩ := holds [] ["__inputs.a"] ⟨"__inputs.b"⟩ sub (by decide)
  exact absurd writable (by decide)

end Role
end Lumencast.Server
