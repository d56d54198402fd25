import Lumencast.Server.Handler

/-!
# Inputs are all or nothing

The handler validates an input in several places, and once more inside the emission. The
outcome is nevertheless one of two: `Rejects`, an error frame and an untouched scene, or
`Accepts`, one emission with all pairs of the frame. `handleInput_of_admitted` and
`handleInput_of_not_admitted` decide between them by the gates alone.
-/

namespace Lumencast.Server

open Foundation Protocol

variable {Text : Type}

namespace Verdict

/-- The error frames that are sent when the verdict is carried out. -/
def errors : Verdict → List ErrorReply
  | refuse reply _ => [reply]
  | answer _ | stop | publish .. | ignore => []

/-- One error is sent, and the scene stays as it was. -/
structure Rejects (verdict : Verdict) (scene : Scene Text) : Prop where
  error : ∃ reply, verdict.errors = [reply]
  store : (verdict.apply scene).store = scene.store
  seq : (verdict.apply scene).seq = scene.seq
  replay : (verdict.apply scene).replay = scene.replay
  tx : (verdict.apply scene).tx = scene.tx

/-- The record and the payload of an emission agree, and carry the pairs of the input. -/
structure Carries (record : ReplayRecord) (payload : DeltaPayload) (seq : Nat) (input : Input) :
    Prop where
  recordSeq : record.seq = seq
  payloadSeq : payload.seq = seq
  recordWrites : writes record.patches = writes input.patches
  payloadWrites : writes payload.patches = writes input.patches
  cause : payload.cause = record.cause
  inputId : record.cause.map Cause.inputId = input.clientMsgId.map some

/-- No error is sent, and the scene has run one emission with the pairs of the input. -/
structure Accepts (verdict : Verdict) (input : Input) (scene : Scene Text) : Prop where
  silent : verdict.errors = []
  store : (verdict.apply scene).store = overwrite scene.store (writes input.patches)
  seq : (verdict.apply scene).seq = scene.seq + 1
  published : ∃ record payload, (verdict.apply scene).replay = scene.replay.push record ∧
    (verdict.apply scene).tx = scene.tx.send payload ∧
    Carries record payload (scene.seq + 1) input

variable {verdict : Verdict} {scene : Scene Text}

theorem rejects_refuse (reply : ErrorReply) (stop : Bool) (scene : Scene Text) :
    (refuse reply stop).Rejects scene :=
  ⟨⟨reply, rfl⟩, rfl, rfl, rfl, rfl⟩

theorem Rejects.not_accepts {input : Input} (rejects : verdict.Rejects scene) :
    ¬verdict.Accepts input scene := by
  intro accepts
  obtain ⟨reply, sent⟩ := rejects.error
  rw [accepts.silent] at sent
  cases sent

end Verdict

/-- Every gate lets the input through: role, rate and the rules for each patch. -/
def Admits (T : TextLayer Text) (scene : Scene Text) (identity : Identity) (rate : RateBucket)
    (now : Nat) (input : Input) : Prop :=
  identity.role.canInput = true ∧ (rate.allow now).1 = true ∧
    ∀ p ∈ input.patches, Admitted T scene identity p

section

variable {T : TextLayer Text} {scene : Scene Text} {identity : Identity} {rate : RateBucket}
  {now : Nat} {text : Text} {input : Input}

/-- The emission finds nothing to object to in the patches of a decoded input. -/
theorem parsePairs_of_decoded (decoded : decodeClient T text = .ok (.input input)) :
    ∃ patches, parsePairs (writes input.patches) = .ok patches := by
  refine ⟨_, parsePairs_of_legal fun pair member => ?_⟩
  obtain ⟨p, listed, rfl⟩ := List.mem_map.mp member
  obtain ⟨valid, legal⟩ := (decodeClient_input decoded).2 p listed
  exact ⟨valid, by simpa [Patch.isValueLegal, Patch.write] using legal⟩

theorem handleInput_of_admits (decoded : decodeClient T text = .ok (.input input))
    (admits : Admits T scene identity rate now input) :
    (handleInput T scene identity rate now input).1.Accepts input scene := by
  obtain ⟨role, allowed, admitted⟩ := admits
  obtain ⟨patches, parsed⟩ := parsePairs_of_decoded decoded
  have bucket : rate.allow now = (true, (rate.allow now).2) := by rw [← allowed]
  rw [handleInput_eq_publish.mpr
    ⟨role, (decodeClient_input decoded).1, bucket, admitted, parsed, rfl⟩]
  refine ⟨rfl, ?_, rfl, _, _, rfl, rfl, rfl, rfl, ?_, ?_, rfl, ?_⟩
  · rw [← writes_of_parsePairs parsed]
    rfl
  · exact writes_of_parsePairs parsed
  · exact writes_of_parsePairs parsed
  · simp [inputCause, Function.comp_def]

/-- A gate that holds the input back answers with an error of its own. -/
theorem handleInput_of_not_admits (decoded : decodeClient T text = .ok (.input input))
    (refused : ¬Admits T scene identity rate now input) :
    ∃ reply rate', handleInput T scene identity rate now input = (.refuse reply false, rate') ∧
      reply.code ≠ .internal := by
  have verdict := inputVerdict_handleInput T scene identity rate now input
  generalize handleInput T scene identity rate now input = answer at verdict ⊢
  cases verdict with
  | role | empty | limit => exact ⟨_, _, rfl, by simp⟩
  | patch _ broken => exact ⟨_, _, rfl, (checkPatch_eq_some broken).2.2.ne_internal⟩
  | emission failed =>
      obtain ⟨patches, parsed⟩ := parsePairs_of_decoded decoded
      cases failed.symm.trans parsed
  | publish role _ allowed admitted =>
      exact absurd ⟨role, by rw [allowed], admitted⟩ refused

/-- An input is either refused with one error and no trace in the scene, or it becomes one
emission of all its pairs; the gates decide which, and no error is one of the server. -/
theorem input_all_or_nothing (decoded : decodeClient T text = .ok (.input input)) :
    let verdict := (handleInput T scene identity rate now input).1
    Xor (verdict.Rejects scene) (verdict.Accepts input scene) ∧
      (verdict.Accepts input scene ↔ Admits T scene identity rate now input) ∧
      ∀ reply ∈ verdict.errors, reply.code ≠ .internal := by
  by_cases admits : Admits T scene identity rate now input
  · have accepts := handleInput_of_admits decoded admits
    refine ⟨.inr ⟨accepts, fun rejects => rejects.not_accepts accepts⟩,
      ⟨fun _ => admits, fun _ => accepts⟩, fun reply sent => ?_⟩
    rw [accepts.silent] at sent
    cases sent
  · obtain ⟨reply, rate', refused, code⟩ := handleInput_of_not_admits decoded admits
    have rejects : (handleInput T scene identity rate now input).1.Rejects scene := by
      rw [refused]
      exact Verdict.rejects_refuse reply false scene
    refine ⟨.inl ⟨rejects, rejects.not_accepts⟩,
      ⟨fun accepts => absurd accepts rejects.not_accepts, fun gates => absurd gates admits⟩,
      fun other sent => ?_⟩
    rw [refused] at sent
    exact List.mem_singleton.mp sent ▸ code

end

private def shelfText : Value :=
  .object [("client_msg_id", .string "m"),
    ("patches", .array [.object [("path", .string "__inputs.shelf"), ("value", .bool true)],
      .object [("path", .string "__inputs.shelf"), ("value", .bool false)]]),
    ("type", .string "input"), ("v", .number (.posInt 1))]

private def shelfInput : Input :=
  { patches := [⟨⟨"__inputs.shelf"⟩, .bool true, none⟩, ⟨⟨"__inputs.shelf"⟩, .bool false, none⟩]
    clientMsgId := some "m" }

theorem input_all_or_nothing_shelf :
    let T := valuePlatform.toTextLayer
    let scene : Scene Value := Scene.new "shelf" "1"
    let operator : Identity := { subject := "", role := .operator }
    let verdict := (handleInput T scene operator (RateBucket.new 1 0) 0 shelfInput).1
    verdict.Accepts shelfInput scene ∧ (verdict.apply scene).seq = 2 := by
  intro T scene operator verdict
  have decoded : decodeClient T shelfText = .ok (.input shelfInput) := by decide
  have admitted : ∀ p ∈ shelfInput.patches, Admitted T scene operator p := by
    intro p member
    simp only [shelfInput, List.mem_cons, List.not_mem_nil, or_false] at member
    rcases member with rfl | rfl <;> exact ⟨by decide, rfl, rfl⟩
  have accepts : verdict.Accepts shelfInput scene :=
    (input_all_or_nothing decoded).2.1.mpr ⟨by decide, by decide, admitted⟩
  exact ⟨accepts, accepts.seq⟩

end Lumencast.Server
