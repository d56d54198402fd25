import Lumencast.Server.Handler

/-!
# Operations on a scene

The uninterrupted operations of a scene: an adapter sets or emits leaves, a client
frame is handled to its end, and a connection that migrates off the scene advances
the counter. A refused operation leaves the scene as it was, and every other one is
a publication of legal pairs or an advance (`apply_cases`). Whoever prepares the scene
has further calls, which none of the checks stands in front of.
-/

namespace Lumencast.Server

open Foundation Protocol

variable {Text : Type}

inductive SceneOp (Text : Type) where
  | set (path : String) (value : Value)
  | emit (pairs : List (String × Value)) (cause : Option Cause)
  | frame (identity : Identity) (rate : RateBucket) (now : Nat) (text : Text)
  | advanceSeqForChange
  deriving DecidableEq

namespace Scene

def apply (T : TextLayer Text) (s : Scene Text) : SceneOp Text → Scene Text
  | .set path value => (s.set path value).toOption.getD s
  | .emit pairs cause => (s.emitWithCause pairs cause).toOption.getD s
  | .frame identity rate now text => (handleTextFrame T s identity rate now text).1.apply s
  | .advanceSeqForChange => s.advanceSeq

def applyAll (T : TextLayer Text) (s : Scene Text) (ops : List (SceneOp Text)) : Scene Text :=
  ops.foldl (apply T) s

end Scene

/-- An operation, or a call that prepares the scene. -/
inductive SceneCall (Text : Type) where
  | operate (op : SceneOp Text)
  | seed (defaults : List (String × Value))
  | reject (code : ErrorCode) (message : String)
  | withOperatorInputs (specs : List InputSpec)
  deriving DecidableEq

namespace Scene

def call (T : TextLayer Text) (s : Scene Text) : SceneCall Text → Scene Text
  | .operate op => s.apply T op
  | .seed defaults => s.seed defaults
  | .reject code message => s.reject code message
  | .withOperatorInputs specs => s.withOperatorInputs specs

variable {T : TextLayer Text}

/-- A frame publishes validated patches, or leaves the scene as it is. -/
theorem apply_frame (s : Scene Text) (identity : Identity) (rate : RateBucket) (now : Nat)
    (text : Text) :
    s.apply T (.frame identity rate now text) = s ∨
      ∃ input patches cause, decodeClient T text = .ok (.input input) ∧
        identity.role.canInput = true ∧ (rate.allow now).1 = true ∧
        (∀ p ∈ input.patches, Admitted T s identity p) ∧
        parsePairs (writes input.patches) = .ok patches ∧
        s.apply T (.frame identity rate now text) = s.publish patches cause := by
  rw [apply]
  rcases handled : handleTextFrame T s identity rate now text with ⟨verdict, rate'⟩
  cases verdict with
  | publish patches cause =>
      obtain ⟨input, decoded, handled⟩ := handleTextFrame_eq_publish.mp handled
      obtain ⟨role, _, allowed, admitted, parsed, _⟩ := handleInput_eq_publish.mp handled
      exact .inr ⟨input, patches, cause, decoded, role, by rw [allowed], admitted, parsed, rfl⟩
  | answer | refuse | stop | ignore => exact .inl rfl

/-- An operation publishes legal pairs, takes a number without a record, or does nothing. -/
theorem apply_cases (s : Scene Text) (op : SceneOp Text) :
    (op = .advanceSeqForChange ∧ s.apply T op = s.advanceSeq) ∨
      (op ≠ .advanceSeqForChange ∧
        (s.apply T op = s ∨ ∃ pairs patches cause, parsePairs pairs = .ok patches ∧
          s.apply T op = s.publish patches cause)) := by
  cases op with
  | advanceSeqForChange => exact .inl ⟨rfl, rfl⟩
  | set path value =>
      refine .inr ⟨nofun, ?_⟩
      simp only [apply, Scene.set]
      cases parsed : parsePair (path, value) with
      | error e => exact .inl rfl
      | ok patch => exact .inr ⟨[(path, value)], _, _, by simp [parsePairs, parsed], rfl⟩
  | emit pairs cause =>
      refine .inr ⟨nofun, ?_⟩
      simp only [apply, emitWithCause]
      cases parsed : parsePairs pairs with
      | error e => exact .inl rfl
      | ok patches =>
          cases patches with
          | nil => exact .inl rfl
          | cons p rest => exact .inr ⟨pairs, _, _, parsed, rfl⟩
  | frame identity rate now text =>
      refine .inr ⟨nofun, ?_⟩
      rcases s.apply_frame (T := T) identity rate now text with
        same | ⟨input, patches, cause, _, _, _, _, parsed, published⟩
      · exact .inl same
      · exact .inr ⟨_, patches, cause, parsed, published⟩

/-- An operation leaves the store, or writes legal pairs to it. -/
theorem store_apply (s : Scene Text) (op : SceneOp Text) :
    ∃ pairs, (∀ w ∈ pairs, LeafPath.Valid w.1 ∧ w.2.isObject = false) ∧
      (s.apply T op).store = overwrite s.store pairs := by
  rcases s.apply_cases (T := T) op with ⟨_, eq⟩ | ⟨_, same | ⟨pairs, patches, cause, parsed, eq⟩⟩
  · exact ⟨[], by simp, by rw [eq]; rfl⟩
  · exact ⟨[], by simp, by rw [same]; rfl⟩
  · exact ⟨writes patches, legal_of_parsePairs parsed, by rw [eq]; rfl⟩

/-- No operation declares inputs. -/
theorem declaredInputs_apply (s : Scene Text) (op : SceneOp Text) :
    (s.apply T op).declaredInputs = s.declaredInputs := by
  rcases s.apply_cases (T := T) op with ⟨_, eq⟩ | ⟨_, same | ⟨_, _, _, _, eq⟩⟩
  · rw [eq]
    rfl
  · rw [same]
  · rw [eq]
    rfl

theorem declaredInputs_applyAll (s : Scene Text) (ops : List (SceneOp Text)) :
    (s.applyAll T ops).declaredInputs = s.declaredInputs := by
  induction ops generalizing s with
  | nil => rfl
  | cons op ops ih => exact (ih (s.apply T op)).trans (s.declaredInputs_apply op)

end Scene
end Lumencast.Server
