import Lumencast.Protocol.Serde

/-!
# Encoding and decoding of whole frames

Frames travel in an envelope `v: 1`, added on encode and checked on decode. The
typed decoding is followed by the validation of leaf values, which treats client
and server frames differently: only an `input` must carry at least one patch,
and only a `snapshot` has state values to check.
-/

namespace Lumencast.Protocol

open Foundation

variable {Text : Type}

/-- The protocol major version carried in every envelope. -/
def protocolVersion : Nat := 1

def injectVersion : Value → Except LumencastError Value
  | .object fields => .ok (.object (insertField "v" (natValue protocolVersion) fields))
  | _ => .error (.invalidEnvelope "frame must serialize to a JSON object")

def encodeWithEnvelope (T : TextLayer Text) (value : Value) : Except LumencastError Text := do
  let value ← injectVersion value
  return T.toText value

/-- Map a failure of the JSON layer into the protocol error. -/
def liftJson {α : Type} : Except JsonError α → Except LumencastError α
  | .ok a => .ok a
  | .error e => .error (.json e)

/-- The envelope checks on a parsed frame. -/
def checkEnvelope (raw : Value) : Except LumencastError Unit := do
  let some obj := raw.asObject | throw (.invalidEnvelope "frame must be a JSON object")
  let some v := (obj.lookup "v").bind Value.asU64
    | throw (.invalidEnvelope "envelope missing `v` field")
  if v ≠ protocolVersion then throw (.versionMismatch v)
  if (obj.lookup "type").isNone then throw (.invalidEnvelope "envelope missing `type` field")

def decodeWithEnvelope {α : Type} (T : TextLayer Text) (ofValue : Value → Except JsonError α)
    (input : Text) : Except LumencastError α := do
  let raw ← liftJson (T.fromText input)
  checkEnvelope raw
  liftJson (ofValue raw)

def validatePatch (p : Patch) : Except LumencastError Unit :=
  if p.isValueLegal then .ok ()
  else .error (.invalidValueAt p.path.str
    ("patch at " ++ p.path.str ++ ": value MUST NOT be a JSON object"))

def validatePatches : List Patch → Except LumencastError Unit
  | [] => .ok ()
  | p :: rest => do
      validatePatch p
      validatePatches rest

/-- The loop over the entries of a snapshot's state. -/
def validateEntries : List (String × Value) → Except LumencastError Unit
  | [] => .ok ()
  | (path, value) :: rest =>
      if value.isObject then
        .error (.invalidValueOf
          ("snapshot state at " ++ debugStr path ++ ": leaf value MUST NOT be an object"))
      else validateEntries rest

/-- The per-frame checks of `validate_server`. -/
def checkServerFrame : ServerFrame → Except LumencastError Unit
  | .delta d => validatePatches d.patches
  | .snapshot s => validateEntries s.state.toList
  | _ => .ok ()

/-- The per-frame checks of `validate_client`. -/
def checkClientFrame : ClientFrame → Except LumencastError Unit
  | .input i =>
      if i.patches.isEmpty then
        .error (.invalidValueOf "input frame patches MUST NOT be empty")
      else validatePatches i.patches
  | _ => .ok ()

def validateServer (frame : ServerFrame) : Except LumencastError ServerFrame := do
  checkServerFrame frame
  return frame

def validateClient (frame : ClientFrame) : Except LumencastError ClientFrame := do
  checkClientFrame frame
  return frame

def encodeServer (T : TextLayer Text) (frame : ServerFrame) : Except LumencastError Text :=
  encodeWithEnvelope T frame.toValue

def decodeServer (T : TextLayer Text) (input : Text) : Except LumencastError ServerFrame := do
  let frame ← decodeWithEnvelope T ServerFrame.ofValue input
  validateServer frame

def encodeClient (T : TextLayer Text) (frame : ClientFrame) : Except LumencastError Text :=
  encodeWithEnvelope T frame.toValue

def decodeClient (T : TextLayer Text) (input : Text) : Except LumencastError ClientFrame := do
  let frame ← decodeWithEnvelope T ClientFrame.ofValue input
  validateClient frame

/-- The text layer with its second writer, for strings. -/
structure StringLayer (Text Str : Type) extends TextLayer Text where
  /-- Serialise a value to a string. -/
  toStr : Value → Str
  asBytes : Str → Text

/-- Both writers produce the same bytes. -/
def StringLayer.SameBytes {Str : Type} (S : StringLayer Text Str) : Prop :=
  ∀ v, S.asBytes (S.toStr v) = S.toText v

section

variable {Str : Type} (S : StringLayer Text Str)

def encodeStrWithEnvelope (value : Value) : Except LumencastError Str := do
  let value ← injectVersion value
  return S.toStr value

def encodeServerStr (frame : ServerFrame) : Except LumencastError Str :=
  encodeStrWithEnvelope S frame.toValue

def decodeServerStr (input : Str) : Except LumencastError ServerFrame :=
  decodeServer S.toTextLayer (S.asBytes input)

def encodeClientStr (frame : ClientFrame) : Except LumencastError Str :=
  encodeStrWithEnvelope S frame.toValue

def decodeClientStr (input : Str) : Except LumencastError ClientFrame :=
  decodeClient S.toTextLayer (S.asBytes input)

end

theorem liftJson_eq_ok {α : Type} {x : Except JsonError α} {a : α} :
    liftJson x = .ok a ↔ x = .ok a := by
  cases x <;> simp [liftJson]

theorem validatePatches_eq_ok {ps : List Patch} :
    validatePatches ps = .ok () ↔ ∀ p ∈ ps, p.isValueLegal = true := by
  induction ps with
  | nil => simp [validatePatches]
  | cons p ps ih =>
      simp only [validatePatches, bind_eq_ok, ih, List.mem_cons, forall_eq_or_imp]
      cases h : p.isValueLegal <;> simp [validatePatch, h]

theorem validateEntries_eq_ok {entries : List (String × Value)} :
    validateEntries entries = .ok () ↔ ∀ e ∈ entries, e.2.isObject = false := by
  induction entries with
  | nil => simp [validateEntries]
  | cons e entries ih =>
      obtain ⟨path, value⟩ := e
      simp only [validateEntries, List.mem_cons, forall_eq_or_imp]
      cases h : value.isObject <;> simp [ih]

theorem Decode.list_eq_ok {α : Type} {decode : Value → Except JsonError α} {v : Value}
    {as : List α} (h : Decode.list decode v = .ok as) : ∀ a ∈ as, ∃ w, decode w = .ok a := by
  unfold Decode.list at h
  split at h
  · next items =>
    intro a member
    obtain ⟨w, _, decoded⟩ := exists_of_mem_mapM h a member
    exact ⟨w, decoded⟩
  · cases h

/-- The patches of a decoded input were decoded one by one. -/
theorem ClientFrame.patches_of_ofContent {name : String} {content : Value} {input : Input}
    (h : ClientFrame.ofContent name content = .ok (.input input)) :
    ∀ p ∈ input.patches, ∃ v, Patch.ofValue v = .ok p := by
  unfold ClientFrame.ofContent at h
  split at h
  · simp only [bind_eq_ok, pure_eq_ok, reduceCtorEq, and_false, exists_false] at h
  · obtain ⟨fields, _, h⟩ := bind_eq_ok.mp h
    obtain ⟨patches, hpatches, h⟩ := bind_eq_ok.mp h
    obtain ⟨clientMsgId, _, h⟩ := bind_eq_ok.mp h
    cases pure_eq_ok.mp h
    obtain ⟨v, _, decoded⟩ := Decode.required_eq_ok.mp hpatches
    exact Decode.list_eq_ok decoded
  · simp only [bind_eq_ok, pure_eq_ok, reduceCtorEq, and_false, exists_false] at h
  · simp only [bind_eq_ok, pure_eq_ok, reduceCtorEq, and_false, exists_false] at h

theorem checkClientFrame_input_eq_ok {input : Input} :
    checkClientFrame (.input input) = .ok () ↔
      input.patches ≠ [] ∧ ∀ p ∈ input.patches, p.isValueLegal = true := by
  unfold checkClientFrame
  rw [ite_error_eq_ok, validatePatches_eq_ok, List.isEmpty_iff]

/-- A decoded input has a patch, its paths parse and its values are legal. -/
theorem decodeClient_input {T : TextLayer Text} {text : Text} {input : Input}
    (h : decodeClient T text = .ok (.input input)) :
    input.patches ≠ [] ∧
      ∀ p ∈ input.patches, LeafPath.Valid p.path.str ∧ p.isValueLegal = true := by
  obtain ⟨frame, decoded, h⟩ := bind_eq_ok.mp h
  obtain ⟨_, checked, h⟩ := bind_eq_ok.mp h
  cases pure_eq_ok.mp h
  obtain ⟨nonempty, legal⟩ := checkClientFrame_input_eq_ok.mp checked
  obtain ⟨raw, _, decoded⟩ := bind_eq_ok.mp decoded
  obtain ⟨_, _, decoded⟩ := bind_eq_ok.mp decoded
  obtain ⟨⟨name, content⟩, _, decoded⟩ := bind_eq_ok.mp (liftJson_eq_ok.mp decoded)
  refine ⟨nonempty, fun p member => ⟨?_, legal p member⟩⟩
  obtain ⟨v, hv⟩ := ClientFrame.patches_of_ofContent decoded p member
  exact Patch.valid_of_ofValue hv

theorem checkServerFrame_snapshot_eq_ok {s : Snapshot} :
    checkServerFrame (.snapshot s) = .ok () ↔ ∀ e ∈ s.state.toList, e.2.isObject = false :=
  validateEntries_eq_ok

end Lumencast.Protocol
