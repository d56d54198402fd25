import Lumencast.Protocol.DecodedFrames
import Lumencast.Server.Handler

/-!
# Rejections of inputs name their path

An input is refused in one of four places. The typed decoding knows no path and names none.
Behind it stand the validator of leaf values, the role gate and the validation loop, and
each of them names a patch that breaks the rule of its error code.

The results are about documents of the shape that an input has, `InputDocument`. What the
typed decoding asks of such a document beyond its shape is `Readable`.
-/

namespace Lumencast.Server

open Foundation Protocol

variable {Text : Type}

/-- An input document: its patches are objects that each have a path and a value. -/
structure InputDocument (doc : Fields) (rows : List Fields) : Prop where
  version : doc.lookup "v" = some (natValue protocolVersion)
  type : doc.lookup "type" = some (.string "input")
  patches : doc.lookup "patches" = some (.array (rows.map .object))
  nonempty : rows ≠ []
  path : ∀ row ∈ rows, ∃ path, row.lookup "path" = some (.string path)
  value : ∀ row ∈ rows, ∃ value, row.lookup "value" = some value

/-- Paths, transitions and the message id are what their types ask for. -/
structure Readable (doc : Fields) (rows : List Fields) : Prop where
  paths : ∀ row ∈ rows, ∀ path, row.lookup "path" = some (.string path) → LeafPath.Valid path
  transitions : ∀ row ∈ rows, ∀ v, row.lookup "transition" = some v →
    v = .null ∨ ∃ t, TransitionSpec.ofValue v = .ok t
  clientMsgId : ∀ v, doc.lookup "client_msg_id" = some v → v = .null ∨ ∃ s, v = .string s

/-- The error codes that come with a path. -/
def pathCodes : List ErrorCode := [.invalidValue, .unknownPath, .writeForbidden]

/-- The reply names a patch that breaks the rule of its code. -/
def NamesPath (T : TextLayer Text) (scene : Scene Text) (identity : Identity) (rows : List Fields)
    (reply : ErrorReply) : Prop :=
  ∃ row ∈ rows, ∃ path value, row.lookup "path" = some (.string path) ∧
    row.lookup "value" = some value ∧ reply.path = some path ∧
    Breaks T scene identity reply.code path value

/-! ## The typed decoding -/

section Document

variable {T : TextLayer Text} {text : Text} {doc : Fields} {rows : List Fields}

/-- The document behind its tag. -/
def untagged (doc : Fields) : Fields := doc.filter fun f => f.1 != "type"

theorem lookup_untagged {k : String} (h : k ≠ "type") :
    (untagged doc).lookup k = doc.lookup k := by
  rw [untagged, lookup_filter_ne, if_neg h]

theorem readable_iff (shape : InputDocument doc rows) :
    Readable doc rows ↔
      ∃ frame, ClientFrame.ofContent "input" (.object (untagged doc)) = .ok frame := by
  have patches : (∃ patches, Decode.required ((untagged doc).lookup ·) "patches"
      (Decode.list Patch.ofValue) = .ok patches) ↔
        ∀ row ∈ rows, ∃ p, Patch.ofValue (.object row) = .ok p := by
    simp only [Decode.required, lookup_untagged (show "patches" ≠ "type" by decide),
      shape.patches, Decode.list]
    rw [exists_mapM_eq_ok, List.forall_mem_map]
  have clientMsgId : (∃ id, Decode.optional ((untagged doc).lookup ·) "client_msg_id"
      Decode.string = .ok id) ↔
        ∀ v, doc.lookup "client_msg_id" = some v → v = .null ∨ ∃ s, v = .string s := by
    have string (v : Value) : (∃ s, Decode.string v = .ok s) ↔ ∃ s, v = .string s := by
      cases v <;> simp [Decode.string]
    simp only [Decode.optional_isOk_iff, string,
      lookup_untagged (show "client_msg_id" ≠ "type" by decide)]
  simp only [ClientFrame.ofContent_input]
  constructor
  · intro readable
    obtain ⟨listed, each⟩ := patches.mpr fun row member => by
      obtain ⟨path, found⟩ := shape.path row member
      obtain ⟨value, given⟩ := shape.value row member
      exact (Patch.exists_ofValue_object found given).mpr
        ⟨readable.paths row member path found, readable.transitions row member⟩
    obtain ⟨id, tagged⟩ := clientMsgId.mpr readable.clientMsgId
    exact ⟨_, listed, id, each, tagged, rfl⟩
  · rintro ⟨_, listed, id, each, tagged, _⟩
    have rows_read := patches.mp ⟨listed, each⟩
    refine ⟨fun row member path found => ?_, fun row member => ?_, clientMsgId.mp ⟨id, tagged⟩⟩
    · obtain ⟨value, given⟩ := shape.value row member
      exact ((Patch.exists_ofValue_object found given).mp (rows_read row member)).1
    · obtain ⟨path, found⟩ := shape.path row member
      obtain ⟨value, given⟩ := shape.value row member
      exact ((Patch.exists_ofValue_object found given).mp (rows_read row member)).2

/-- Behind its envelope the document is read and validated. -/
theorem decodeClient_document (parsed : T.fromText text = .ok (.object doc))
    (shape : InputDocument doc rows) :
    decodeClient T text =
      liftJson (ClientFrame.ofContent "input" (.object (untagged doc))) >>= validateClient := by
  have checked : checkEnvelope (.object doc) = .ok () :=
    checkEnvelope_eq_ok.mpr ⟨doc, rfl, shape.version, by rw [shape.type]; rfl⟩
  have tagged : Decode.tagged "type" ClientFrame.typeNames false (.object doc) =
      .ok ("input", .object (untagged doc)) := by
    simp [Decode.tagged, shape.type, Decode.tag, ClientFrame.typeNames, Except.map, untagged]
  unfold decodeClient decodeWithEnvelope ClientFrame.ofValue
  simp only [parsed, liftJson, checked, tagged, bind, Except.bind]

/-- Every patch of the input was read from a row with its path and its value. -/
theorem exists_row (shape : InputDocument doc rows) {input : Input}
    (read : ClientFrame.ofContent "input" (.object (untagged doc)) = .ok (.input input)) :
    input.patches ≠ [] ∧ ∀ p ∈ input.patches, ∃ row ∈ rows,
      row.lookup "path" = some (.string p.path.str) ∧ row.lookup "value" = some p.value := by
  obtain ⟨_, listed, _⟩ := ClientFrame.input_of_ofContent read
  obtain ⟨v, found, decoded⟩ := Decode.required_eq_ok.mp listed
  rw [lookup_untagged (by decide), shape.patches] at found
  cases found
  constructor
  · intro empty
    rw [Decode.list_eq_nil_iff decoded] at empty
    exact shape.nonempty (List.map_eq_nil_iff.mp (Value.array.inj empty))
  · intro p member
    obtain ⟨v, given, read⟩ := exists_of_mem_mapM decoded p member
    obtain ⟨row, here, rfl⟩ := List.mem_map.mp given
    obtain ⟨path, value, _⟩ := Patch.ofValue_object.mp read
    obtain ⟨w, found, parsed⟩ := Decode.required_eq_ok.mp path
    obtain ⟨rfl, _⟩ := LeafPath.ofValue_eq_ok.mp parsed
    exact ⟨row, here, found, value⟩

end Document

/-! ## The three checks behind it -/

theorem validatePatches_eq_error {patches : List Patch} {e : LumencastError}
    (h : validatePatches patches = .error e) :
    ∃ p ∈ patches, p.value.isObject = true ∧ ∃ message, e = .invalidValueAt p.path.str message := by
  induction patches with
  | nil => cases h
  | cons p patches ih =>
      cases legal : p.isValueLegal with
      | false =>
          simp only [validatePatches, validatePatch, legal] at h
          cases h
          exact ⟨p, List.mem_cons_self, by simpa [Patch.isValueLegal] using legal, _, rfl⟩
      | true =>
          simp only [validatePatches, validatePatch, legal] at h
          obtain ⟨q, member, broken⟩ := ih h
          exact ⟨q, List.mem_cons_of_mem p member, broken⟩

section Checks

variable {T : TextLayer Text} {scene : Scene Text} {identity : Identity} {rate rate' : RateBucket}
  {now : Nat} {input : Input} {reply : ErrorReply} {stop : Bool}

/-- A role that sends no inputs writes no path. -/
theorem canWrite_of_not_canInput {role : Role} (h : role.canInput = false) (path : LeafPath)
    (scope : Option (List String)) : role.canWrite path scope = false := by
  cases role with
  | viewer => rfl
  | operator | service | test => cases h

/-- A refused input names a patch, unless the reply is about the rate. -/
theorem handleInput_eq_refuse (nonempty : input.patches ≠ [])
    (h : handleInput T scene identity rate now input = (.refuse reply stop, rate'))
    (code : reply.code ∈ pathCodes) :
    ∃ p ∈ input.patches, reply.path = some p.path.str ∧
      Breaks T scene identity reply.code p.path.str p.value := by
  have verdict := inputVerdict_handleInput T scene identity rate now input
  rw [h] at verdict
  cases verdict with
  | role refused =>
      obtain ⟨p, rest, patches⟩ := List.exists_cons_of_ne_nil nonempty
      refine ⟨p, by simp [patches], by simp [patches], ?_⟩
      exact canWrite_of_not_canInput refused ⟨p.path.str⟩ identity.paths
  | empty missing => exact absurd missing nonempty
  | limit | emission => simp [pathCodes] at code
  | patch member refused => exact ⟨_, member, (checkPatch_eq_some refused).2⟩

end Checks

/-- Whenever an input document is answered with a code that comes with a path, the reply
names a patch that breaks the rule of the code, exactly if the document can be read. -/
theorem rejections_name_path {T : TextLayer Text} {text : Text} {doc : Fields}
    {rows : List Fields} (parsed : T.fromText text = .ok (.object doc))
    (shape : InputDocument doc rows) (scene : Scene Text) (identity : Identity)
    (rate : RateBucket) (now : Nat) :
    (∀ reply stop rate', handleTextFrame T scene identity rate now text =
      (.refuse reply stop, rate') → reply.code ∈ pathCodes →
        NamesPath T scene identity rows reply) ↔ Readable doc rows := by
  have decodes := decodeClient_document parsed shape
  rw [readable_iff shape]
  cases read : ClientFrame.ofContent "input" (.object (untagged doc)) with
  | error e =>
      -- the typed decoding failed: the reply has no path
      have handled : handleTextFrame T scene identity rate now text =
          (.refuse { code := .invalidValue, message := "malformed JSON: " ++ T.showError e
                     recoverable := false } true, rate) := by
        simp [handleTextFrame, decodes, read, liftJson, bind, Except.bind]
      refine iff_of_false (fun names => ?_) (by simp)
      obtain ⟨_, _, path, _, _, _, named, _⟩ := names _ _ _ handled (by simp [pathCodes])
      cases named
  | ok frame =>
      refine iff_of_true (fun reply stop rate' handled code => ?_) ⟨frame, rfl⟩
      obtain ⟨patches, clientMsgId, _, _, rfl⟩ := ClientFrame.ofContent_input.mp read
      obtain ⟨nonempty, from_row⟩ := exists_row shape read
      have validated : decodeClient T text =
          validatePatches patches >>= fun _ => .ok (.input { patches, clientMsgId }) := by
        have listed : patches.isEmpty = false := by simpa [List.isEmpty_eq_false_iff] using nonempty
        rw [decodes, read]
        simp only [liftJson, bind, Except.bind, validateClient, checkClientFrame, listed]
        rfl
      obtain ⟨p, member, path, breaks⟩ : ∃ p ∈ patches, reply.path = some p.path.str ∧
          Breaks T scene identity reply.code p.path.str p.value := by
        cases checked : validatePatches patches with
        | error e =>
            -- a leaf value is an object
            obtain ⟨p, member, object, message, rfl⟩ := validatePatches_eq_error checked
            simp only [handleTextFrame, validated, checked, bind, Except.bind,
              LumencastError.invalidValueAt] at handled
            cases handled
            exact ⟨p, member, rfl, .inr (.inl object)⟩
        | ok u =>
            simp only [handleTextFrame, validated, checked, bind, Except.bind] at handled
            exact handleInput_eq_refuse nonempty handled code
      obtain ⟨row, here, found, given⟩ := from_row p member
      exact ⟨row, here, _, _, found, given, path, breaks⟩

private def doorRow (path : String) : Fields := [("path", .string path), ("value", .bool true)]

private def doorDocument (path : String) : Fields :=
  [("patches", .array [.object (doorRow path)]), ("type", .string "input"),
    ("v", .number (.posInt 1))]

private theorem doorDocument_shape (path : String) :
    InputDocument (doorDocument path) [doorRow path] := by
  refine ⟨rfl, rfl, rfl, by simp, fun row member => ?_, fun row member => ?_⟩
  · exact ⟨path, List.mem_singleton.mp member ▸ rfl⟩
  · exact ⟨.bool true, List.mem_singleton.mp member ▸ rfl⟩

theorem rejections_name_path_door :
    let T := valuePlatform.toTextLayer
    let scene : Scene Value := Scene.new "hall" "1"
    let viewer : Identity := { subject := "", role := .viewer }
    ∃ reply rate', handleTextFrame T scene viewer (RateBucket.new 1 0) 0
        (.object (doorDocument "__inputs.door")) = (.refuse reply false, rate') ∧
      NamesPath T scene viewer [doorRow "__inputs.door"] reply := by
  intro T scene viewer
  have readable : Readable (doorDocument "__inputs.door") [doorRow "__inputs.door"] := by
    refine ⟨fun row member path found => ?_, fun row member v found => ?_, fun v found => ?_⟩
    · obtain rfl := List.mem_singleton.mp member
      cases found
      decide
    · obtain rfl := List.mem_singleton.mp member
      cases found
    · cases found
  have parsed : T.fromText (.object (doorDocument "__inputs.door")) =
      .ok (.object (doorDocument "__inputs.door")) := rfl
  have names := (rejections_name_path parsed (doorDocument_shape _) scene viewer
    (RateBucket.new 1 0) 0).mpr readable
  exact ⟨_, _, rfl, names _ _ _ rfl (by decide)⟩

/-- A patch whose path does not parse is rejected without a path. -/
theorem rejection_without_path :
    let T := valuePlatform.toTextLayer
    let scene : Scene Value := Scene.new "hall" "1"
    let operator : Identity := { subject := "", role := .operator }
    InputDocument (doorDocument "__inputs.front door") [doorRow "__inputs.front door"] ∧
      ∃ reply rate', handleTextFrame T scene operator (RateBucket.new 1 0) 0
          (.object (doorDocument "__inputs.front door")) = (.refuse reply true, rate') ∧
        reply.code = .invalidValue ∧
        ¬NamesPath T scene operator [doorRow "__inputs.front door"] reply := by
  intro T scene operator
  refine ⟨doorDocument_shape _, _, _, rfl, rfl, ?_⟩
  rintro ⟨_, _, path, _, _, _, named, _⟩
  cases named

end Lumencast.Server
