import Lumencast.Protocol.Frames
import Lumencast.Foundation.Record

/-!
# Typed serialisation of frames

The derived serialisers and deserialisers of the frame records, field by field
under their wire names: absent optional fields are skipped, unknown fields are
ignored, and frames and animation directives are internally tagged. A leaf path
inside a frame is parsed, so a malformed path fails the typed decoding.
-/

namespace Lumencast.Protocol

open Foundation

/-- An optional field, skipped when absent. -/
def optionalField {α : Type} (name : String) (toValue : α → Value) :
    Option α → List (String × Value)
  | some a => [(name, toValue a)]
  | none => []

def natValue (n : Nat) : Value := .number (.posInt n)

def floatValue (q : ℚ) : Value := .number (.float q)

namespace LeafPath

def toValue (p : LeafPath) : Value := .string p.str

/-- Conversion from a string parses the path; its failure is a custom decoding error. -/
def ofValue (v : Value) : Except JsonError LeafPath := do
  let s ← Decode.string v
  match parse s with
  | .ok p => return p
  | .error e => throw (.custom (e.display fun _ => ""))

/-- A path is read from a string that parses. -/
theorem ofValue_eq_ok {v : Value} {p : LeafPath} :
    ofValue v = .ok p ↔ v = .string p.str ∧ Valid p.str := by
  constructor
  · intro h
    obtain ⟨s, decoded, read⟩ := bind_eq_ok.mp h
    cases v with
    | string t =>
        cases decoded
        split at read
        · next parsed =>
          cases pure_eq_ok.mp read
          obtain ⟨valid, rfl⟩ := parse_eq_ok.mp parsed
          exact ⟨rfl, valid⟩
        · cases read
    | null | bool | number | array | object => cases decoded
  · rintro ⟨rfl, valid⟩
    refine bind_eq_ok.mpr ⟨p.str, rfl, ?_⟩
    rw [parse_of_valid valid]
    rfl

end LeafPath

namespace Easing

def wireNames : List (String × Easing) :=
  [("linear", linear), ("ease-in", easeIn), ("ease-out", easeOut), ("ease-in-out", easeInOut)]

def toValue : Easing → Value
  | linear => .string "linear"
  | easeIn => .string "ease-in"
  | easeOut => .string "ease-out"
  | easeInOut => .string "ease-in-out"

def ofValue : Value → Except JsonError Easing := Decode.variant wireNames

end Easing

namespace TransitionSpec

def toValue : TransitionSpec → Value
  | tween durationMs easing =>
      objectOf ([("kind", .string "tween")] ++ optionalField "duration_ms" natValue durationMs ++
        optionalField "easing" Easing.toValue easing)
  | spring stiffness damping =>
      objectOf ([("kind", .string "spring")] ++ optionalField "stiffness" floatValue stiffness ++
        optionalField "damping" floatValue damping)
  | snap => objectOf [("kind", .string "snap")]

def ofValue (v : Value) : Except JsonError TransitionSpec := do
  let (kind, content) ← Decode.tagged "kind" ["tween", "spring", "snap"] true v
  match kind with
  | "tween" =>
      let fields ← Decode.record ["duration_ms", "easing"] content
      let durationMs ← Decode.optional fields "duration_ms" Decode.u32
      let easing ← Decode.optional fields "easing" Easing.ofValue
      return .tween durationMs easing
  | "spring" =>
      let fields ← Decode.record ["stiffness", "damping"] content
      let stiffness ← Decode.optional fields "stiffness" Decode.f64
      let damping ← Decode.optional fields "damping" Decode.f64
      return .spring stiffness damping
  | _ =>
      match content with
      | .array (_ :: _) => throw .invalidLength
      | _ => return .snap

end TransitionSpec

namespace Patch

def toValue (p : Patch) : Value :=
  objectOf ([("path", p.path.toValue), ("value", p.value)] ++
    optionalField "transition" TransitionSpec.toValue p.transition)

def ofValue (v : Value) : Except JsonError Patch := do
  let fields ← Decode.record ["path", "value", "transition"] v
  let path ← Decode.required fields "path" LeafPath.ofValue
  let value ← Decode.required fields "value" Decode.value
  let transition ← Decode.optional fields "transition" TransitionSpec.ofValue
  return { path, value, transition }

/-- A patch is read field by field. -/
theorem ofValue_eq_ok {v : Value} {p : Patch} :
    ofValue v = .ok p ↔ ∃ fields, Decode.record ["path", "value", "transition"] v = .ok fields ∧
      Decode.required fields "path" LeafPath.ofValue = .ok p.path ∧
      Decode.required fields "value" Decode.value = .ok p.value ∧
      Decode.optional fields "transition" TransitionSpec.ofValue = .ok p.transition := by
  constructor
  · intro h
    obtain ⟨fields, record, h⟩ := bind_eq_ok.mp h
    obtain ⟨path, parsed, h⟩ := bind_eq_ok.mp h
    obtain ⟨value, given, h⟩ := bind_eq_ok.mp h
    obtain ⟨transition, decoded, h⟩ := bind_eq_ok.mp h
    cases pure_eq_ok.mp h
    exact ⟨fields, record, parsed, given, decoded⟩
  · rintro ⟨fields, record, parsed, given, decoded⟩
    refine bind_eq_ok.mpr ⟨fields, record, bind_eq_ok.mpr ⟨p.path, parsed, ?_⟩⟩
    exact bind_eq_ok.mpr ⟨p.value, given, bind_eq_ok.mpr ⟨p.transition, decoded, rfl⟩⟩

/-- Every decoded patch carries a parsed path. -/
theorem valid_of_ofValue {v : Value} {p : Patch} (h : ofValue v = .ok p) :
    LeafPath.Valid p.path.str := by
  obtain ⟨fields, _, parsed, _⟩ := ofValue_eq_ok.mp h
  obtain ⟨w, _, parsed⟩ := Decode.required_eq_ok.mp parsed
  exact (LeafPath.ofValue_eq_ok.mp parsed).2

end Patch

namespace Cause

def toValue (c : Cause) : Value :=
  objectOf ([("source", .string c.source)] ++ optionalField "input_id" .string c.inputId)

def ofValue (v : Value) : Except JsonError Cause := do
  let fields ← Decode.record ["source", "input_id"] v
  let source ← Decode.required fields "source" Decode.string
  let inputId ← Decode.optional fields "input_id" Decode.string
  return { source, inputId }

end Cause

namespace SceneTransition

def toValue (t : SceneTransition) : Value :=
  objectOf ([("kind", .string t.kind)] ++ optionalField "duration_ms" natValue t.durationMs)

def ofValue (v : Value) : Except JsonError SceneTransition := do
  let fields ← Decode.record ["kind", "duration_ms"] v
  let kind ← Decode.required fields "kind" Decode.string
  let durationMs ← Decode.optional fields "duration_ms" Decode.u32
  return { kind, durationMs }

end SceneTransition

/-- A dictionary is an object with one field for each entry. -/
def State.toValue (state : State) : Value := .object state.toList

def State.ofValue : Value → Except JsonError State
  | .object fields => .ok (overwrite ∅ fields)
  | _ => .error .invalidType

namespace ErrorCode

def toValue (code : ErrorCode) : Value := .string code.asWireStr

def ofValue : Value → Except JsonError ErrorCode := Decode.variant wireNames

end ErrorCode

namespace ServerFrame

/-- The fields of a frame with its `type` tag, before the envelope is added. -/
def fields : ServerFrame → List (String × Value)
  | snapshot f =>
      [("type", .string "snapshot"), ("seq", natValue f.seq), ("scene_id", .string f.sceneId),
        ("scene_version", .string f.sceneVersion), ("state", State.toValue f.state)] ++
      optionalField "ts" .string f.ts
  | delta f =>
      [("type", .string "delta"), ("seq", natValue f.seq),
        ("patches", .array (f.patches.map Patch.toValue))] ++
      optionalField "ts" .string f.ts ++ optionalField "cause" Cause.toValue f.cause
  | sceneChanged f =>
      [("type", .string "scene_changed"), ("seq", natValue f.seq),
        ("scene_id", .string f.sceneId), ("scene_version", .string f.sceneVersion)] ++
      optionalField "ts" .string f.ts ++
      optionalField "from_scene_id" .string f.fromSceneId ++
      optionalField "transition" SceneTransition.toValue f.transition
  | error f =>
      [("type", .string "error"), ("seq", natValue f.seq), ("code", f.code.toValue),
        ("message", .string f.message), ("recoverable", .bool f.recoverable)] ++
      optionalField "retry_after_ms" natValue f.retryAfterMs ++
      optionalField "path" .string f.path ++ optionalField "ts" .string f.ts
  | pong f => [("type", .string "pong")] ++ optionalField "nonce" .string f.nonce

def toValue (frame : ServerFrame) : Value := objectOf frame.fields

def typeNames : List String := ["snapshot", "delta", "scene_changed", "error", "pong"]

/-- The content of the variant named `name`. -/
def ofContent (name : String) (content : Value) : Except JsonError ServerFrame := do
  match name with
  | "snapshot" =>
      let fields ← Decode.record ["seq", "scene_id", "scene_version", "state", "ts"] content
      let seq ← Decode.required fields "seq" Decode.u64
      let sceneId ← Decode.required fields "scene_id" Decode.string
      let sceneVersion ← Decode.required fields "scene_version" Decode.string
      let state ← Decode.required fields "state" State.ofValue
      let ts ← Decode.optional fields "ts" Decode.string
      return .snapshot { seq, sceneId, sceneVersion, state, ts }
  | "delta" =>
      let fields ← Decode.record ["seq", "patches", "ts", "cause"] content
      let seq ← Decode.required fields "seq" Decode.u64
      let patches ← Decode.required fields "patches" (Decode.list Patch.ofValue)
      let ts ← Decode.optional fields "ts" Decode.string
      let cause ← Decode.optional fields "cause" Cause.ofValue
      return .delta { seq, patches, ts, cause }
  | "scene_changed" =>
      let fields ← Decode.record
        ["seq", "scene_id", "scene_version", "ts", "from_scene_id", "transition"] content
      let seq ← Decode.required fields "seq" Decode.u64
      let sceneId ← Decode.required fields "scene_id" Decode.string
      let sceneVersion ← Decode.required fields "scene_version" Decode.string
      let ts ← Decode.optional fields "ts" Decode.string
      let fromSceneId ← Decode.optional fields "from_scene_id" Decode.string
      let transition ← Decode.optional fields "transition" SceneTransition.ofValue
      return .sceneChanged { seq, sceneId, sceneVersion, ts, fromSceneId, transition }
  | "error" =>
      let fields ← Decode.record
        ["seq", "code", "message", "recoverable", "retry_after_ms", "path", "ts"] content
      let seq ← Decode.required fields "seq" Decode.u64
      let code ← Decode.required fields "code" ErrorCode.ofValue
      let message ← Decode.required fields "message" Decode.string
      let recoverable ← Decode.required fields "recoverable" Decode.bool
      let retryAfterMs ← Decode.optional fields "retry_after_ms" Decode.u64
      let path ← Decode.optional fields "path" Decode.string
      let ts ← Decode.optional fields "ts" Decode.string
      return .error { seq, code, message, recoverable, retryAfterMs, path, ts }
  | _ =>
      let fields ← Decode.record ["nonce"] content
      let nonce ← Decode.optional fields "nonce" Decode.string
      return .pong { nonce }

def ofValue (v : Value) : Except JsonError ServerFrame := do
  let (name, content) ← Decode.tagged "type" typeNames false v
  ofContent name content

end ServerFrame

namespace ClientFrame

/-- The fields of a frame with its `type` tag, before the envelope is added. -/
def fields : ClientFrame → List (String × Value)
  | subscribe f =>
      [("type", .string "subscribe"), ("token", .string f.token)] ++
      optionalField "scene" .string f.scene ++ optionalField "session" .string f.session ++
      optionalField "since_sequence" natValue f.sinceSequence
  | input f =>
      [("type", .string "input"), ("patches", .array (f.patches.map Patch.toValue))] ++
      optionalField "client_msg_id" .string f.clientMsgId
  | ping f => [("type", .string "ping")] ++ optionalField "nonce" .string f.nonce
  | unsubscribe _ => [("type", .string "unsubscribe")]

def toValue (frame : ClientFrame) : Value := objectOf frame.fields

def typeNames : List String := ["subscribe", "input", "ping", "unsubscribe"]

def ofContent (name : String) (content : Value) : Except JsonError ClientFrame := do
  match name with
  | "subscribe" =>
      let fields ← Decode.record ["token", "scene", "session", "since_sequence"] content
      let token ← Decode.required fields "token" Decode.string
      let scene ← Decode.optional fields "scene" Decode.string
      let session ← Decode.optional fields "session" Decode.string
      let sinceSequence ← Decode.optional fields "since_sequence" Decode.u64
      return .subscribe { token, scene, session, sinceSequence }
  | "input" =>
      let fields ← Decode.record ["patches", "client_msg_id"] content
      let patches ← Decode.required fields "patches" (Decode.list Patch.ofValue)
      let clientMsgId ← Decode.optional fields "client_msg_id" Decode.string
      return .input { patches, clientMsgId }
  | "ping" =>
      let fields ← Decode.record ["nonce"] content
      let nonce ← Decode.optional fields "nonce" Decode.string
      return .ping { nonce }
  | _ =>
      let _ ← Decode.record [] content
      return .unsubscribe {}

def ofValue (v : Value) : Except JsonError ClientFrame := do
  let (name, content) ← Decode.tagged "type" typeNames false v
  ofContent name content

end ClientFrame
end Lumencast.Protocol
