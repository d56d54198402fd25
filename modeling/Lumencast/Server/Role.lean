import Lumencast.Protocol.LeafPath

/-!
# Roles and write scopes

The role of a connection decides which namespace its input frames may write. A
service identity may be narrowed further by a list of path prefixes; an empty or
missing list leaves it unscoped.
-/

namespace Lumencast.Server

open Foundation Protocol

inductive Role where
  | viewer
  | operator
  | service
  | test
  deriving DecidableEq, Repr

/-- The identity attached to a connection by the authenticator. -/
structure Identity where
  subject : String
  role : Role
  paths : Option (List String) := none
  deriving DecidableEq, Repr

namespace Role

def canInput : Role → Bool
  | viewer => false
  | _ => true

def canWrite (role : Role) (path : LeafPath) (scope : Option (List String)) : Bool :=
  match role with
  | viewer => false
  | operator => path.startsWithPrefix "__inputs"
  | service =>
      if !path.startsWithPrefix "__inputs" then false
      else
        match scope with
        | some prefixes => if prefixes.isEmpty then true else prefixes.any path.startsWithPrefix
        | none => true
  | test => path.startsWithPrefix "__test"

/-- The display form, also the first half of a cause's source tag. -/
def display : Role → String
  | viewer => "viewer"
  | operator => "operator"
  | service => "service"
  | test => "test"

/-- The reserved namespace head that the role's writable paths start with. -/
def namespaceHead : Role → Option String
  | viewer => none
  | operator | service => some "__inputs"
  | test => some "__test"

theorem ne_viewer_of_canWrite {role : Role} {path : LeafPath} {scope : Option (List String)}
    (h : role.canWrite path scope = true) : role ≠ viewer := by
  rintro rfl
  cases h

theorem canInput_of_ne_viewer {role : Role} (h : role ≠ viewer) : role.canInput = true := by
  cases role with
  | viewer => exact absurd rfl h
  | operator | service | test => rfl

/-- A service writes inputs, below one of its prefixes if it is scoped. -/
theorem canWrite_service_iff {path : LeafPath} {scope : Option (List String)} :
    service.canWrite path scope = true ↔
      path.startsWithPrefix "__inputs" = true ∧ ∀ prefixes, scope = some prefixes →
        prefixes ≠ [] → ∃ pre ∈ prefixes, path.startsWithPrefix pre = true := by
  cases inside : path.startsWithPrefix "__inputs" with
  | false => simp [canWrite, inside]
  | true =>
      rcases scope with _ | _ | ⟨pre, prefixes⟩
      · simp [canWrite, inside]
      · simp [canWrite, inside]
      · simp [canWrite, inside]

/-- A writable path lies segment-wise below the role's namespace head. -/
theorem startsWithPrefix_of_canWrite {role : Role} {path : LeafPath}
    {scope : Option (List String)} (h : role.canWrite path scope = true) :
    ∃ head, role.namespaceHead = some head ∧ path.startsWithPrefix head = true := by
  cases role with
  | viewer => cases h
  | operator => exact ⟨_, rfl, h⟩
  | service => exact ⟨_, rfl, (canWrite_service_iff.mp h).1⟩
  | test => exact ⟨_, rfl, h⟩

/-- Everything below a writable path is writable. -/
theorem canWrite_child {role : Role} {path : String} {scope : Option (List String)} (n : Nat)
    (h : role.canWrite ⟨path⟩ scope = true) :
    role.canWrite ⟨LeafPath.child path n⟩ scope = true := by
  cases role with
  | viewer => cases h
  | operator =>
      rw [canWrite] at h ⊢
      exact LeafPath.startsWithPrefix_child n h
  | service =>
      obtain ⟨inside, within⟩ := canWrite_service_iff.mp h
      refine canWrite_service_iff.mpr
        ⟨LeafPath.startsWithPrefix_child n inside, fun prefixes listed nonempty => ?_⟩
      obtain ⟨pre, member, starts⟩ := within prefixes listed nonempty
      exact ⟨pre, member, LeafPath.startsWithPrefix_child n starts⟩
  | test =>
      rw [canWrite] at h ⊢
      exact LeafPath.startsWithPrefix_child n h

end Role
end Lumencast.Server
