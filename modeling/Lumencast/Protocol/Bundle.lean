import Lumencast.Protocol.Serde

/-!
# Scene bundles

The parser, the validator and the content hash of LSML scene bundles. The two
layout walkers share one stack-driven traversal, `walk`, and differ in what they
check at each object node. Hashing is a parameter of the platform: a bundle is
hashed over its canonical serialisation with the placeholder version in place.
-/

namespace Lumencast.Protocol

open Foundation

variable {Text : Type}

/-- The LSML schema major version that is accepted. -/
def supportedLsmlMajor : Nat := 1

/-- The placeholder content hash used during canonical hashing. -/
def placeholderHash : String := "sha256:" ++ String.ofList (List.replicate 64 '0')

/-- The text layer together with the digest function. -/
structure Platform (Text : Type) extends TextLayer Text where
  sha256 : Text → List UInt8

/-- The platform whose texts are the JSON values themselves. -/
def valuePlatform : Platform Value where
  toText := id
  fromText := .ok
  showError := fun _ => "invalid"
  showFloat := fun _ => "0.0"
  sha256 := fun _ => []

inductive BundleError where
  | json (e : JsonError)
  | invalid (message : String)
  | incompatible (got : String)
  | hashMismatch (declared computed : String)
  deriving DecidableEq, Repr

def BundleError.display (showError : JsonError → String) : BundleError → String
  | json e => "invalid JSON: " ++ showError e
  | invalid message => "invalid bundle: " ++ message
  | incompatible got => "incompatible LSML version: " ++ got ++ " (supported: 1.x)"
  | hashMismatch declared computed =>
      "content hash mismatch: bundle declares " ++ declared ++ ", computed " ++ computed

/-- One row of a bundle's `operator_inputs`. -/
structure OperatorInput where
  path : String
  label : String
  kind : String
  constraints : Option Value := none
  writableBy : List String := []
  group : Option String := none
  values : Option Value := none
  deriving DecidableEq

structure Bundle where
  lsml : String
  sceneId : SceneId
  sceneVersion : SceneVersion
  layout : Value
  operatorInputs : List OperatorInput := []
  externalAdapters : List Value := []
  defaults : State := ∅
  assets : Option Value := none
  i18n : Option Value := none
  metadata : Option Value := none
  deriving DecidableEq

/-- A list field, skipped when empty. -/
def listField {α : Type} (name : String) (toValue : α → Value) (as : List α) :
    List (String × Value) :=
  if as.isEmpty then [] else [(name, .array (as.map toValue))]

namespace OperatorInput

def toValue (op : OperatorInput) : Value :=
  objectOf ([("path", .string op.path), ("label", .string op.label), ("type", .string op.kind)] ++
    optionalField "constraints" id op.constraints ++
    listField "writable_by" .string op.writableBy ++ optionalField "group" .string op.group ++
    optionalField "values" id op.values)

def ofValue (v : Value) : Except JsonError OperatorInput := do
  let fields ← Decode.record
    ["path", "label", "type", "constraints", "writable_by", "group", "values"] v
  let path ← Decode.required fields "path" Decode.string
  let label ← Decode.required fields "label" Decode.string
  let kind ← Decode.required fields "type" Decode.string
  let constraints ← Decode.optional fields "constraints" Decode.value
  let writableBy ← Decode.defaulted fields "writable_by" (Decode.list Decode.string) []
  let group ← Decode.optional fields "group" Decode.string
  let values ← Decode.optional fields "values" Decode.value
  return { path, label, kind, constraints, writableBy, group, values }

end OperatorInput

namespace Bundle

def toValue (b : Bundle) : Value :=
  objectOf ([("lsml", .string b.lsml), ("scene_id", .string b.sceneId),
      ("scene_version", .string b.sceneVersion), ("layout", b.layout)] ++
    listField "operator_inputs" OperatorInput.toValue b.operatorInputs ++
    listField "external_adapters" id b.externalAdapters ++
    (if b.defaults.isEmpty then [] else [("defaults", State.toValue b.defaults)]) ++
    optionalField "assets" id b.assets ++ optionalField "i18n" id b.i18n ++
    optionalField "metadata" id b.metadata)

def ofValue (v : Value) : Except JsonError Bundle := do
  let fields ← Decode.record ["lsml", "scene_id", "scene_version", "layout", "operator_inputs",
    "external_adapters", "defaults", "assets", "i18n", "metadata"] v
  let lsml ← Decode.required fields "lsml" Decode.string
  let sceneId ← Decode.required fields "scene_id" Decode.string
  let sceneVersion ← Decode.required fields "scene_version" Decode.string
  let layout ← Decode.required fields "layout" Decode.value
  let operatorInputs ←
    Decode.defaulted fields "operator_inputs" (Decode.list OperatorInput.ofValue) []
  let externalAdapters ←
    Decode.defaulted fields "external_adapters" (Decode.list Decode.value) []
  let defaults ← Decode.defaulted fields "defaults" State.ofValue ∅
  let assets ← Decode.optional fields "assets" Decode.value
  let i18n ← Decode.optional fields "i18n" Decode.value
  let metadata ← Decode.optional fields "metadata" Decode.value
  return { lsml, sceneId, sceneVersion, layout, operatorInputs, externalAdapters, defaults,
           assets, i18n, metadata }

end Bundle

/-- Parse an unsigned 32-bit decimal; a leading plus sign is allowed. -/
def parseU32 (s : List Char) : Option Nat :=
  let digits := if s.head? = some '+' then s.tail else s
  if digits.isEmpty || !digits.all (fun c => '0' ≤ c && c ≤ '9') then none
  else
    let n := digits.foldl (fun n c => 10 * n + (c.toNat - 48)) 0
    if n < 2 ^ 32 then some n else none

def parseMajor (lsml : String) : Option Nat := (segments lsml).head?.bind parseU32

def animateAllowed : List String := ["transition", "transform", "opacity", "filter"]

def primitiveKinds : List String :=
  ["stack", "grid", "frame", "text", "image", "shape", "media", "repeat"]

def zabCaptureKind : String := "x-zab.capture"

def captureVisualKinds : List String :=
  ["media.webcam", "media.screen", "media.window", "media.file", "media.game"]

def captureAudioKinds : List String := ["media.app_audio", "media.system_audio", "media.mic"]

def joinComma (names : List String) : String := ", ".intercalate names

/-- The grammar `^[a-z][a-z0-9-]` with at most 63 further characters. -/
def isLogicalDeviceRef (s : String) : Bool :=
  if 64 < (bytes s.toList).length then false
  else
    match s.toList with
    | [] => false
    | first :: rest =>
        ('a' ≤ first && first ≤ 'z') &&
          rest.all fun c => ('a' ≤ c && c ≤ 'z') || ('0' ≤ c && c ≤ '9') || c == '-'

abbrev Fields := List (String × Value)

/-- The property rules of a single capture node. -/
def checkZabCapture (obj : Fields) : Except BundleError Unit :=
  match (obj.lookup "x-zab.sourceKind").bind Value.asStr with
  | none => .error (.invalid "`x-zab.capture` MUST declare `x-zab.sourceKind` (RFC-0001)")
  | some sourceKind =>
      let visual := captureVisualKinds.contains sourceKind
      if !visual && !captureAudioKinds.contains sourceKind then
        .error (.invalid ("unknown `x-zab.sourceKind` " ++ debugStr sourceKind ++
          " (RFC-0001 A2 §A2.2: " ++ joinComma captureVisualKinds ++ ", " ++
          joinComma captureAudioKinds ++ ")"))
      else
        match (obj.lookup "x-zab.deviceRef").bind Value.asStr with
        | none => .error (.invalid "`x-zab.capture` MUST declare `x-zab.deviceRef` (RFC-0001)")
        | some deviceRef =>
            if !isLogicalDeviceRef deviceRef then
              .error (.invalid ("`x-zab.deviceRef` " ++ debugStr deviceRef ++
                " MUST be a logical alias matching ^[a-z][a-z0-9-]\x7b0,63\x7d$ — " ++
                "never a physical device id (RFC-0001)"))
            else if visual && (obj.lookup "size").isNone then
              .error (.invalid ("`x-zab.capture` of visual kind " ++ debugStr sourceKind ++
                " MUST declare `size` (RFC-0001 Amendment 2 §A2.2)"))
            else .ok ()

/-- The structural rule of each primitive kind. -/
def checkPerKind (kind : String) (obj : Fields) : Except BundleError Unit :=
  match kind with
  | "image" =>
      if (obj.lookup "alt").isNone then
        .error (.invalid "`image` primitive MUST declare `alt` (LSML 1.0 §13)")
      else .ok ()
  | "stack" =>
      match (obj.lookup "direction").bind Value.asStr with
      | some "horizontal" | some "vertical" => .ok ()
      | _ => .error (.invalid "`stack.direction` MUST be \"horizontal\" or \"vertical\"")
  | "grid" =>
      if (obj.lookup "columns").isNone then .error (.invalid "`grid.columns` is required")
      else .ok ()
  | "shape" =>
      match (obj.lookup "geometry").bind Value.asStr with
      | some "rect" | some "circle" => .ok ()
      | some "path" =>
          if (obj.lookup "pathData").isSome then .ok ()
          else .error (.invalid "`shape` with geometry=\"path\" requires `pathData`")
      | _ => .error (.invalid "`shape.geometry` MUST be \"rect\", \"circle\" or \"path\"")
  | "media" =>
      match (obj.lookup "kind_hint").bind Value.asStr with
      | some "video" | some "audio" => .ok ()
      | _ => .error (.invalid "`media.kind_hint` MUST be \"video\" or \"audio\"")
  | "repeat" =>
      if (obj.lookup "scope").isNone then .error (.invalid "`repeat.scope` is required")
      else if (obj.lookup "template").isNone then
        .error (.invalid "`repeat.template` is required")
      else .ok ()
  | _ => .ok ()

def checkAnimateKeys : List String → Except BundleError Unit
  | [] => .ok ()
  | key :: rest =>
      if !animateAllowed.contains key then
        .error (.invalid ("animate." ++ key ++ " is not animatable (allowed: " ++
          joinComma animateAllowed ++ ")"))
      else checkAnimateKeys rest

/-- What `check_layout_invariants` checks at one object node. -/
def checkLayoutNode (obj : Fields) : Except BundleError Unit := do
  let some kind := (obj.lookup "kind").bind Value.asStr
    | throw (.invalid "primitive node MUST declare a `kind` field")
  if kind = zabCaptureKind then checkZabCapture obj
  else if !primitiveKinds.contains kind then
    throw (.invalid ("unknown primitive kind " ++ debugStr kind ++ " (LSML 1.0 catalogue: " ++
      joinComma primitiveKinds ++ ")"))
  checkAnimateKeys ((((obj.lookup "animate").bind Value.asObject).getD []).map Prod.fst)
  checkPerKind kind obj

/-- What `check_zab_capture_nodes` checks at one object node. -/
def checkCaptureNode (obj : Fields) : Except BundleError Unit :=
  if (obj.lookup "kind").bind Value.asStr = some zabCaptureKind then checkZabCapture obj
  else .ok ()

/-- The nodes pushed after visiting an object: the children, then the template. -/
def childNodes (obj : Fields) : List Value :=
  (((obj.lookup "children").bind Value.asArray).getD []) ++ (obj.lookup "template").toList

/-- The traversal with an explicit stack, its top first. The fuel counts visits. -/
def walk (check : Fields → Except BundleError Unit) :
    Nat → List Value → Except BundleError Unit
  | _, [] => .ok ()
  | 0, _ :: _ => .ok ()
  | n + 1, node :: stack =>
      match node with
      | .object obj => do
          check obj
          walk check n ((childNodes obj).reverse ++ stack)
      | _ => walk check n stack

mutual

/-- The number of values in a document, an upper bound of the nodes visited. -/
def Value.nodeCount : Value → Nat
  | .array items => itemsCount items + 1
  | .object fields => fieldsCount fields + 1
  | _ => 1

def itemsCount : List Value → Nat
  | [] => 0
  | v :: rest => Value.nodeCount v + itemsCount rest

def fieldsCount : List (String × Value) → Nat
  | [] => 0
  | (_, v) :: rest => Value.nodeCount v + fieldsCount rest

end

def checkLayoutInvariants (root : Value) : Except BundleError Unit :=
  walk checkLayoutNode (Value.nodeCount root) [root]

def checkZabCaptureNodes (root : Value) : Except BundleError Unit :=
  walk checkCaptureNode (Value.nodeCount root) [root]

/-- The path lives under the `__inputs` namespace. -/
def isInputsPath (path : String) : Bool :=
  path = "__inputs" || (stripPrefix "__inputs.".toList path.toList).isSome

def checkOperatorInputs : List OperatorInput → Except BundleError Unit
  | [] => .ok ()
  | op :: rest =>
      if !isInputsPath op.path then
        .error (.invalid ("operator_inputs[" ++ debugStr op.path ++
          "].path MUST live under `__inputs.*`"))
      else checkOperatorInputs rest

def writeHexByte (byte : UInt8) : List Char :=
  [Nat.digitChar (byte.toNat / 16), Nat.digitChar (byte.toNat % 16)]

def hashToSceneVersion (P : Platform Text) (canonical : Text) : SceneVersion :=
  "sha256:" ++ String.ofList ((P.sha256 canonical).flatMap writeHexByte)

namespace Bundle

def validate (b : Bundle) : Except BundleError Unit := do
  let some major := parseMajor b.lsml
    | throw (.invalid ("malformed `lsml` version: " ++ debugStr b.lsml))
  if major ≠ supportedLsmlMajor then throw (.incompatible b.lsml)
  if b.sceneId.isEmpty then throw (.invalid "scene_id MUST NOT be empty")
  checkOperatorInputs b.operatorInputs
  checkLayoutInvariants b.layout

/-- Map a failure of the JSON layer into the bundle error. -/
def liftJson {α : Type} : Except JsonError α → Except BundleError α
  | .ok a => .ok a
  | .error e => .error (.json e)

def parse (P : Platform Text) (text : Text) : Except BundleError Bundle := do
  let raw ← liftJson (P.fromText text)
  let bundle ← liftJson (ofValue raw)
  bundle.validate
  return bundle

/-- Canonical JSON with the declared `scene_version`. -/
def toCanonicalBytes (P : Platform Text) (b : Bundle) : Text := P.toText b.toValue

/-- Canonical JSON with the placeholder in place of `scene_version`. -/
def toCanonicalBytesForHashing (P : Platform Text) (b : Bundle) : Text :=
  match b.toValue with
  | .object fields =>
      P.toText (.object (insertField "scene_version" (.string placeholderHash) fields))
  | value => P.toText value

def computeContentHash (P : Platform Text) (b : Bundle) : SceneVersion :=
  hashToSceneVersion P (b.toCanonicalBytesForHashing P)

def isSelfConsistent (P : Platform Text) (b : Bundle) : Bool :=
  b.computeContentHash P == b.sceneVersion

def withComputedVersion (P : Platform Text) (b : Bundle) : Bundle :=
  { b with sceneVersion := b.computeContentHash P }

theorem parse_eq_ok {P : Platform Text} {text : Text} {b : Bundle} :
    parse P text = .ok b ↔
      ∃ raw, P.fromText text = .ok raw ∧ ofValue raw = .ok b ∧ b.validate = .ok () := by
  have lift {α : Type} (x : Except JsonError α) (a : α) : liftJson x = .ok a ↔ x = .ok a := by
    cases x <;> simp [liftJson]
  unfold parse
  simp only [bind_eq_ok, lift, pure_eq_ok]
  constructor
  · rintro ⟨raw, parsed, b', decoded, _, valid, rfl⟩
    exact ⟨raw, parsed, decoded, valid⟩
  · rintro ⟨raw, parsed, decoded, valid⟩
    exact ⟨raw, parsed, b, decoded, (), valid, rfl⟩

end Bundle
end Lumencast.Protocol
