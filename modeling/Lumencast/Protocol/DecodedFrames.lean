import Lumencast.Protocol.Bundle
import Lumencast.Protocol.RoundTrip

/-!
# What decoding establishes

A frame is decoded in three stages: the envelope is checked, the typed decoding parses the
paths, and the validators look at the values. `decodeWithEnvelope_eq_ok` collects what the
first two ask of the document, and `Legal` what a decoded frame has of it; a legal frame
is decoded again after it was encoded.

The documented frame contract, `WellFormed`, asks for more than the server direction
checks: a `delta` may come without patches, and the keys of a `snapshot` state are never
parsed.
-/

namespace Lumencast.Protocol

open Foundation

variable {Text : Type}

/-! ## Records -/

theorem Decode.u32_lt {v : Value} {n : Nat} (h : Decode.u32 v = .ok n) : n < 2 ^ 32 := by
  obtain ⟨m, _, h⟩ := bind_eq_ok.mp h
  split at h
  · next fits =>
    cases pure_eq_ok.mp h
    exact fits
  · cases h

theorem Decode.list_eq_nil_iff {α : Type} {decode : Value → Except JsonError α} {v : Value}
    {as : List α} (h : Decode.list decode v = .ok as) : as = [] ↔ v = .array [] := by
  cases v with
  | array items =>
      have length := (mapM_eq_ok.mp h).length_eq
      rw [Value.array.injEq, ← List.length_eq_zero_iff, ← List.length_eq_zero_iff, length]
  | null | bool | number | string | object => cases h

/-- Outside a tagged value a variant is given by its name only. -/
theorem Decode.tag_eq_ok {names : List String} {v : Value} {name : String} :
    Decode.tag names false v = .ok name ↔ v = .string name ∧ name ∈ names := by
  cases v with
  | string s =>
      by_cases known : s ∈ names
      · simp only [Decode.tag, known, if_true, Except.ok.injEq, Value.string.injEq]
        exact ⟨fun same => ⟨same, same ▸ known⟩, And.left⟩
      · simp only [Decode.tag, known, if_false, reduceCtorEq, Value.string.injEq, false_iff]
        rintro ⟨rfl, listed⟩
        exact known listed
  | number n => cases n <;> simp [Decode.tag]
  | null | bool | array | object => simp [Decode.tag]

theorem TransitionSpec.inRange_of_ofValue {v : Value} {t : TransitionSpec}
    (h : ofValue v = .ok t) : t.InRange := by
  obtain ⟨⟨kind, content⟩, _, h⟩ := bind_eq_ok.mp h
  simp only at h
  split at h
  · obtain ⟨fields, _, h⟩ := bind_eq_ok.mp h
    obtain ⟨durationMs, duration, h⟩ := bind_eq_ok.mp h
    obtain ⟨easing, _, h⟩ := bind_eq_ok.mp h
    cases pure_eq_ok.mp h
    rintro n rfl
    obtain ⟨_, _, number⟩ := Decode.exists_of_optional duration
    exact Decode.u32_lt number
  · obtain ⟨fields, _, h⟩ := bind_eq_ok.mp h
    obtain ⟨stiffness, _, h⟩ := bind_eq_ok.mp h
    obtain ⟨damping, _, h⟩ := bind_eq_ok.mp h
    cases pure_eq_ok.mp h
    trivial
  · split at h <;> cases h
    trivial

theorem SceneTransition.inRange_of_ofValue {v : Value} {t : SceneTransition}
    (h : ofValue v = .ok t) : ∀ n ∈ t.durationMs, n < 2 ^ 32 := by
  obtain ⟨fields, _, h⟩ := bind_eq_ok.mp h
  obtain ⟨kind, _, h⟩ := bind_eq_ok.mp h
  obtain ⟨durationMs, duration, h⟩ := bind_eq_ok.mp h
  cases pure_eq_ok.mp h
  rintro n rfl
  obtain ⟨_, _, number⟩ := Decode.exists_of_optional duration
  exact Decode.u32_lt number

theorem Patch.ofValue_object {row : List (String × Value)} {p : Patch} :
    ofValue (.object row) = .ok p ↔
      Decode.required (row.lookup ·) "path" LeafPath.ofValue = .ok p.path ∧
        row.lookup "value" = some p.value ∧
        Decode.optional (row.lookup ·) "transition" TransitionSpec.ofValue = .ok p.transition := by
  rw [ofValue_eq_ok]
  constructor
  · rintro ⟨fields, record, parsed, given, decoded⟩
    cases record
    obtain ⟨v, found, same⟩ := Decode.required_eq_ok.mp given
    cases same
    exact ⟨parsed, found, decoded⟩
  · rintro ⟨parsed, given, decoded⟩
    exact ⟨_, rfl, parsed, Decode.required_eq_ok.mpr ⟨_, given, rfl⟩, decoded⟩

/-- A row is read as a patch exactly when its path parses and its transition is read. -/
theorem Patch.exists_ofValue_object {row : List (String × Value)} {path : String} {value : Value}
    (found : row.lookup "path" = some (.string path)) (given : row.lookup "value" = some value) :
    (∃ p, ofValue (.object row) = .ok p) ↔ LeafPath.Valid path ∧
      ∀ v, row.lookup "transition" = some v →
        v = .null ∨ ∃ t, TransitionSpec.ofValue v = .ok t := by
  have transition := @Decode.optional_isOk_iff _ (row.lookup ·) "transition" TransitionSpec.ofValue
  rw [← transition]
  constructor
  · rintro ⟨p, h⟩
    obtain ⟨parsed, _, decoded⟩ := ofValue_object.mp h
    obtain ⟨v, same, parsed⟩ := Decode.required_eq_ok.mp parsed
    obtain ⟨rfl, valid⟩ := LeafPath.ofValue_eq_ok.mp parsed
    cases found.symm.trans same
    exact ⟨valid, p.transition, decoded⟩
  · rintro ⟨valid, transition, decoded⟩
    have parsed : Decode.required (row.lookup ·) "path" LeafPath.ofValue = .ok ⟨path⟩ :=
      Decode.required_eq_ok.mpr ⟨_, found, LeafPath.ofValue_eq_ok.mpr ⟨rfl, valid⟩⟩
    exact ⟨⟨⟨path⟩, value, transition⟩, ofValue_object.mpr ⟨parsed, given, decoded⟩⟩

theorem Patch.transition_of_ofValue {v : Value} {p : Patch} (h : ofValue v = .ok p) :
    ∀ t ∈ p.transition, t.InRange := by
  obtain ⟨fields, _, _, _, decoded⟩ := ofValue_eq_ok.mp h
  intro t present
  obtain ⟨_, _, spec⟩ := Decode.exists_of_optional (decoded.trans (congrArg _ present))
  exact TransitionSpec.inRange_of_ofValue spec

/-- A decoded list of patches that passes the validator is legal, patch by patch. -/
theorem legal_of_list {v : Value} {patches : List Patch}
    (h : Decode.list Patch.ofValue v = .ok patches) (checked : validatePatches patches = .ok ()) :
    ∀ p ∈ patches, p.Legal := by
  intro p member
  obtain ⟨w, decoded⟩ := Decode.list_eq_ok h p member
  exact ⟨Patch.valid_of_ofValue decoded, validatePatches_eq_ok.mp checked p member,
    Patch.transition_of_ofValue decoded⟩

/-! ## The envelope -/

theorem asU64_eq_some {v : Value} {n : Nat} : v.asU64 = some n ↔ v = natValue n := by
  unfold natValue
  cases v with
  | number m => cases m <;> simp [Value.asU64, Number.asU64]
  | null | bool | string | array | object => simp [Value.asU64]

theorem checkEnvelope_eq_ok {raw : Value} :
    checkEnvelope raw = .ok () ↔ ∃ doc, raw = .object doc ∧
      doc.lookup "v" = some (natValue protocolVersion) ∧ (doc.lookup "type").isSome := by
  cases raw with
  | object doc =>
      unfold checkEnvelope
      simp only [Value.asObject_object, Value.object.injEq, exists_eq_left']
      cases version : (doc.lookup "v").bind Value.asU64 with
      | none =>
          have absent : doc.lookup "v" ≠ some (natValue protocolVersion) := by
            intro found
            rw [found] at version
            cases version
          simp [absent]
      | some n =>
          obtain ⟨v, found, number⟩ := Option.bind_eq_some_iff.mp version
          obtain rfl := asU64_eq_some.mp number
          by_cases same : n = protocolVersion
          · cases typed : doc.lookup "type" with
            | none => simp [same]
            | some t => simp [same, found, pure_eq_ok]
          · simp [same, found, natValue, bind_eq_ok]
  | null | bool | number | string | array => simp [checkEnvelope, Value.asObject]

/-- A frame is read from the content of a document whose envelope is in order. -/
theorem decodeWithEnvelope_eq_ok {α : Type} {T : TextLayer Text} {names : List String}
    {ofContent : String → Value → Except JsonError α} {text : Text} {a : α} :
    decodeWithEnvelope T (fun v => do
      let (name, content) ← Decode.tagged "type" names false v
      ofContent name content) text = .ok a ↔
      ∃ doc name, T.fromText text = .ok (.object doc) ∧
        doc.lookup "v" = some (natValue protocolVersion) ∧
        doc.lookup "type" = some (.string name) ∧ name ∈ names ∧
        ofContent name (.object (doc.filter fun f => f.1 != "type")) = .ok a := by
  unfold decodeWithEnvelope
  constructor
  · intro h
    obtain ⟨raw, parsed, h⟩ := bind_eq_ok.mp h
    obtain ⟨_, checked, h⟩ := bind_eq_ok.mp h
    obtain ⟨doc, rfl, version, typed⟩ := checkEnvelope_eq_ok.mp checked
    obtain ⟨⟨name, content⟩, tagged, decoded⟩ := bind_eq_ok.mp (liftJson_eq_ok.mp h)
    obtain ⟨v, kind⟩ := Option.isSome_iff_exists.mp typed
    simp only [Decode.tagged, kind] at tagged
    obtain ⟨name', tag, same⟩ := map_eq_ok.mp tagged
    cases same
    obtain ⟨rfl, known⟩ := Decode.tag_eq_ok.mp tag
    exact ⟨doc, name, liftJson_eq_ok.mp parsed, version, kind, known, decoded⟩
  · rintro ⟨doc, name, parsed, version, kind, known, decoded⟩
    have checked : checkEnvelope (.object doc) = .ok () :=
      checkEnvelope_eq_ok.mpr ⟨doc, rfl, version, by rw [kind]; rfl⟩
    refine bind_eq_ok.mpr ⟨_, liftJson_eq_ok.mpr parsed, bind_eq_ok.mpr ⟨(), checked, ?_⟩⟩
    refine liftJson_eq_ok.mpr (bind_eq_ok.mpr ⟨(name, _), ?_, decoded⟩)
    simp [Decode.tagged, kind, Decode.tag, known, Except.map]

/-! ## Server frames -/

namespace ServerFrame

/-- The fields of the content that the parts of a frame under a contract were read from. -/
def ReadFrom (name : String) (doc : List (String × Value)) : ServerFrame → Prop
  | snapshot f =>
      name = "snapshot" ∧ ∃ v, doc.lookup "state" = some v ∧ State.ofValue v = .ok f.state
  | delta f =>
      name = "delta" ∧
        ∃ v, doc.lookup "patches" = some v ∧ Decode.list Patch.ofValue v = .ok f.patches
  | sceneChanged f =>
      name = "scene_changed" ∧
        Decode.optional (doc.lookup ·) "transition" SceneTransition.ofValue = .ok f.transition
  | error _ | pong _ => name ≠ "snapshot" ∧ name ≠ "delta"

theorem readFrom_of_ofContent {name : String} {doc : List (String × Value)}
    {frame : ServerFrame} (h : ofContent name (.object doc) = .ok frame) :
    frame.ReadFrom name doc := by
  unfold ofContent at h
  split at h
  · obtain ⟨fields, record, h⟩ := bind_eq_ok.mp h
    obtain ⟨seq, _, h⟩ := bind_eq_ok.mp h
    obtain ⟨sceneId, _, h⟩ := bind_eq_ok.mp h
    obtain ⟨sceneVersion, _, h⟩ := bind_eq_ok.mp h
    obtain ⟨state, found, h⟩ := bind_eq_ok.mp h
    obtain ⟨ts, _, h⟩ := bind_eq_ok.mp h
    cases pure_eq_ok.mp h
    cases record
    exact ⟨rfl, Decode.required_eq_ok.mp found⟩
  · obtain ⟨fields, record, h⟩ := bind_eq_ok.mp h
    obtain ⟨seq, _, h⟩ := bind_eq_ok.mp h
    obtain ⟨patches, found, h⟩ := bind_eq_ok.mp h
    obtain ⟨ts, _, h⟩ := bind_eq_ok.mp h
    obtain ⟨cause, _, h⟩ := bind_eq_ok.mp h
    cases pure_eq_ok.mp h
    cases record
    exact ⟨rfl, Decode.required_eq_ok.mp found⟩
  · obtain ⟨fields, record, h⟩ := bind_eq_ok.mp h
    obtain ⟨seq, _, h⟩ := bind_eq_ok.mp h
    obtain ⟨sceneId, _, h⟩ := bind_eq_ok.mp h
    obtain ⟨sceneVersion, _, h⟩ := bind_eq_ok.mp h
    obtain ⟨ts, _, h⟩ := bind_eq_ok.mp h
    obtain ⟨fromSceneId, _, h⟩ := bind_eq_ok.mp h
    obtain ⟨transition, found, h⟩ := bind_eq_ok.mp h
    cases pure_eq_ok.mp h
    cases record
    exact ⟨rfl, found⟩
  · simp only [bind_eq_ok, pure_eq_ok] at h
    obtain ⟨_, _, _, _, _, _, _, _, _, _, _, _, _, _, _, _, rfl⟩ := h
    exact ⟨by decide, by decide⟩
  · simp only [bind_eq_ok, pure_eq_ok] at h
    obtain ⟨_, _, _, _, rfl⟩ := h
    exact ⟨‹_›, ‹_›⟩

/-- What is decoded and passes the validator may be sent. -/
theorem legal_of_readFrom {name : String} {doc : List (String × Value)} {frame : ServerFrame}
    (read : frame.ReadFrom name doc) (checked : checkServerFrame frame = .ok ()) :
    frame.Legal := by
  cases frame with
  | snapshot f => exact checkServerFrame_snapshot_eq_ok.mp checked
  | delta f =>
      obtain ⟨_, v, _, listed⟩ := read
      exact legal_of_list listed checked
  | sceneChanged f =>
      intro t present
      obtain ⟨v, _, decoded⟩ := Decode.exists_of_optional (read.2.trans (congrArg _ present))
      exact SceneTransition.inRange_of_ofValue decoded
  | error f | pong f => trivial

end ServerFrame

/-! ## Client frames -/

namespace ClientFrame

/-- An input is read field by field. -/
theorem ofContent_input {doc : List (String × Value)} {frame : ClientFrame} :
    ofContent "input" (.object doc) = .ok frame ↔ ∃ patches clientMsgId,
      Decode.required (doc.lookup ·) "patches" (Decode.list Patch.ofValue) = .ok patches ∧
        Decode.optional (doc.lookup ·) "client_msg_id" Decode.string = .ok clientMsgId ∧
        frame = .input { patches, clientMsgId } := by
  constructor
  · intro h
    obtain ⟨fields, record, h⟩ := bind_eq_ok.mp h
    obtain ⟨patches, listed, h⟩ := bind_eq_ok.mp h
    obtain ⟨clientMsgId, tagged, h⟩ := bind_eq_ok.mp h
    cases pure_eq_ok.mp h
    cases record
    exact ⟨patches, clientMsgId, listed, tagged, rfl⟩
  · rintro ⟨patches, clientMsgId, listed, tagged, rfl⟩
    simp [ofContent, Decode.record, bind, Except.bind, listed, tagged, pure, Except.pure]

/-- Only a document tagged as an input is read as one. -/
theorem input_of_ofContent {name : String} {doc : List (String × Value)} {input : Input}
    (h : ofContent name (.object doc) = .ok (.input input)) :
    name = "input" ∧
      Decode.required (doc.lookup ·) "patches" (Decode.list Patch.ofValue) = .ok input.patches ∧
      Decode.optional (doc.lookup ·) "client_msg_id" Decode.string = .ok input.clientMsgId := by
  unfold ofContent at h
  split at h
  · simp only [bind_eq_ok, pure_eq_ok, reduceCtorEq, and_false, exists_false] at h
  · obtain ⟨patches, clientMsgId, listed, tagged, same⟩ := ofContent_input.mp h
    cases same
    exact ⟨rfl, listed, tagged⟩
  · simp only [bind_eq_ok, pure_eq_ok, reduceCtorEq, and_false, exists_false] at h
  · simp only [bind_eq_ok, pure_eq_ok, reduceCtorEq, and_false, exists_false] at h

theorem legal_of_ofContent {name : String} {doc : List (String × Value)} {frame : ClientFrame}
    (h : ofContent name (.object doc) = .ok frame) (checked : checkClientFrame frame = .ok ()) :
    frame.Legal := by
  cases frame with
  | input f =>
      obtain ⟨_, listed, _⟩ := input_of_ofContent h
      obtain ⟨v, _, decoded⟩ := Decode.required_eq_ok.mp listed
      obtain ⟨nonempty, leaves⟩ := checkClientFrame_input_eq_ok.mp checked
      exact ⟨nonempty, legal_of_list decoded (validatePatches_eq_ok.mpr leaves)⟩
  | subscribe f | ping f | unsubscribe f => trivial

end ClientFrame

/-! ## The frame contract -/

/-- The patches of a frame: at least one, each with a parsed path and a leaf value. -/
def LegalPatches (patches : List Patch) : Prop :=
  patches ≠ [] ∧ ∀ p ∈ patches, LeafPath.Valid p.path.str ∧ p.isValueLegal = true

/-- The documented contract of a server frame. -/
def ServerFrame.WellFormed : ServerFrame → Prop
  | snapshot f => ∀ e ∈ f.state.toList, LeafPath.Valid e.1 ∧ e.2.isObject = false
  | delta f => LegalPatches f.patches
  | sceneChanged _ | error _ | pong _ => True

/-- The documented contract of a client frame. -/
def ClientFrame.WellFormed : ClientFrame → Prop
  | input f => LegalPatches f.patches
  | subscribe _ | ping _ | unsubscribe _ => True

/-- The text is a document with the protocol version in its envelope. -/
def Enveloped (T : TextLayer Text) (text : Text) : Prop :=
  ∃ doc, T.fromText text = .ok (.object doc) ∧ doc.lookup "v" = some (natValue protocolVersion)

/-- A `delta` document whose list of patches is empty. -/
def EmptyDelta (doc : List (String × Value)) : Prop :=
  doc.lookup "type" = some (.string "delta") ∧ doc.lookup "patches" = some (.array [])

/-- A `snapshot` document with a state key that is no leaf path. -/
def StrayKey (doc : List (String × Value)) : Prop :=
  doc.lookup "type" = some (.string "snapshot") ∧
    ∃ entries, doc.lookup "state" = some (.object entries) ∧ ∃ e ∈ entries, ¬LeafPath.Valid e.1

/-- The texts that the server direction decodes without the checks of the contract. -/
def Unchecked (T : TextLayer Text) (text : Text) : Prop :=
  ∃ doc, T.fromText text = .ok (.object doc) ∧ (EmptyDelta doc ∨ StrayKey doc)

/-- The keys of a decoded dictionary are the keys of its document. -/
theorem State.mem_keys_iff {entries : List (String × Value)} {k : String} :
    (∃ v, (k, v) ∈ (overwrite (∅ : State) entries).toList) ↔ ∃ v, (k, v) ∈ entries := by
  simp only [Std.ExtTreeMap.mem_toList_iff_getElem?_eq_some]
  constructor
  · rintro ⟨v, found⟩
    rcases mem_or_getElem?_of_overwrite found with member | old
    · exact ⟨v, member⟩
    · simp at old
  · rintro ⟨v, member⟩
    rw [getElem?_overwrite]
    obtain ⟨w, written⟩ := Option.isSome_iff_exists.mp
      (@lastWrite_isSome_of_mem _ _ compare _ _ (k, v) member)
    exact ⟨w, by rw [written]; rfl⟩

/-- The server direction upholds the contract exactly outside the two kinds of documents. -/
theorem ServerFrame.wellFormed_iff {doc : List (String × Value)} {name : String}
    {frame : ServerFrame} (typed : doc.lookup "type" = some (.string name))
    (read : frame.ReadFrom name (doc.filter fun f => f.1 != "type"))
    (checked : checkServerFrame frame = .ok ()) :
    frame.WellFormed ↔ ¬(EmptyDelta doc ∨ StrayKey doc) := by
  have legal := legal_of_readFrom read checked
  have untyped (k : String) (h : k ≠ "type") :
      (doc.filter fun f => f.1 != "type").lookup k = doc.lookup k := by
    rw [lookup_filter_ne, if_neg h]
  cases frame with
  | snapshot f =>
      obtain ⟨rfl, v, found, decoded⟩ := read
      rw [untyped _ (by decide)] at found
      cases v with
      | object entries =>
          have state : overwrite ∅ entries = f.state := Except.ok.inj decoded
          have keys : (∀ e ∈ f.state.toList, LeafPath.Valid e.1) ↔
              ∀ e ∈ entries, LeafPath.Valid e.1 := by
            constructor
            · rintro valid ⟨k, v⟩ member
              obtain ⟨w, kept⟩ := State.mem_keys_iff.mpr ⟨v, member⟩
              exact valid (k, w) (state ▸ kept)
            · rintro valid ⟨k, v⟩ member
              obtain ⟨w, given⟩ := State.mem_keys_iff.mp ⟨v, state ▸ member⟩
              exact valid (k, w) given
          have stray : StrayKey doc ↔ ¬∀ e ∈ entries, LeafPath.Valid e.1 := by
            simp [StrayKey, typed, found]
          have undelta : ¬EmptyDelta doc := by simp [EmptyDelta, typed]
          rw [or_iff_right undelta, stray, not_not, ← keys]
          exact ⟨fun wf e member => (wf e member).1, fun valid e member =>
            ⟨valid e member, legal e member⟩⟩
      | null | bool | number | string | array => cases decoded
  | delta f =>
      obtain ⟨rfl, v, found, decoded⟩ := read
      rw [untyped _ (by decide)] at found
      have empty : EmptyDelta doc ↔ f.patches = [] := by
        rw [Decode.list_eq_nil_iff decoded]
        simp [EmptyDelta, typed, found]
      have unstray : ¬StrayKey doc := by simp [StrayKey, typed]
      rw [or_iff_left unstray, empty]
      exact ⟨And.left, fun nonempty => ⟨nonempty, fun p member =>
        ⟨(legal p member).path, (legal p member).leaf⟩⟩⟩
  | sceneChanged f =>
      obtain ⟨rfl, _⟩ := read
      simp [WellFormed, EmptyDelta, StrayKey, typed]
  | error f | pong f => simp [WellFormed, EmptyDelta, StrayKey, typed, read.1, read.2]

/-- A decoded server frame has a versioned envelope and is decoded again as it was, if its
document is read back, and it is well-formed unless its document is one of the unchecked ones.
A decoded client frame is always well-formed. -/
theorem decoded_frames_legal {T : TextLayer Text} :
    (∀ text frame, decodeServer T text = .ok frame → T.ReadsBack frame.document →
      (Enveloped T text ∧ frame.WellFormed ∧
          encodeServer T frame >>= decodeServer T = .ok frame ↔ ¬Unchecked T text)) ∧
      ∀ text frame, decodeClient T text = .ok frame → T.ReadsBack frame.document →
        Enveloped T text ∧ frame.WellFormed ∧
          encodeClient T frame >>= decodeClient T = .ok frame := by
  constructor
  · intro text frame h back
    obtain ⟨frame, decoded, h⟩ := bind_eq_ok.mp h
    obtain ⟨_, checked, h⟩ := bind_eq_ok.mp h
    cases pure_eq_ok.mp h
    obtain ⟨doc, name, parsed, version, typed, _, content⟩ := decodeWithEnvelope_eq_ok.mp decoded
    have read := ServerFrame.readFrom_of_ofContent content
    have again := ServerFrame.decode_encode (ServerFrame.legal_of_readFrom read checked) back
    have enveloped : Enveloped T text := ⟨doc, parsed, version⟩
    have unchecked : Unchecked T text ↔ EmptyDelta doc ∨ StrayKey doc := by
      simp [Unchecked, parsed]
    rw [unchecked, ← ServerFrame.wellFormed_iff typed read checked]
    exact ⟨fun all => all.2.1, fun wf => ⟨enveloped, wf, again⟩⟩
  · intro text frame h back
    obtain ⟨frame, decoded, h⟩ := bind_eq_ok.mp h
    obtain ⟨_, checked, h⟩ := bind_eq_ok.mp h
    cases pure_eq_ok.mp h
    obtain ⟨doc, name, parsed, version, typed, _, content⟩ := decodeWithEnvelope_eq_ok.mp decoded
    have legal := ClientFrame.legal_of_ofContent content checked
    refine ⟨⟨doc, parsed, version⟩, ?_, ClientFrame.decode_encode legal back⟩
    cases frame with
    | input f => exact ⟨legal.1, fun p hp => ⟨(legal.2 p hp).path, (legal.2 p hp).leaf⟩⟩
    | subscribe f | ping f | unsubscribe f => trivial

private def deltaDocument (patches : List Value) : Value :=
  .object [("patches", .array patches), ("seq", .number (.posInt 2)), ("type", .string "delta"),
    ("v", .number (.posInt 1))]

private def snapshotDocument (key : String) : Value :=
  .object [("scene_id", .string "main"), ("scene_version", .string "1"),
    ("seq", .number (.posInt 1)), ("state", .object [(key, .bool true)]),
    ("type", .string "snapshot"), ("v", .number (.posInt 1))]

private def lampPatch : Value := .object [("path", .string "lamp"), ("value", .bool true)]

private def lampDelta : ServerFrame :=
  .delta { seq := 2, patches := [⟨⟨"lamp"⟩, .bool true, none⟩] }

theorem decoded_frames_legal_lamp :
    decodeServer valuePlatform.toTextLayer (deltaDocument [lampPatch]) = .ok lampDelta ∧
      lampDelta.WellFormed ∧
      encodeServer valuePlatform.toTextLayer lampDelta >>=
        decodeServer valuePlatform.toTextLayer = .ok lampDelta := by
  have decoded : decodeServer valuePlatform.toTextLayer (deltaDocument [lampPatch]) =
      .ok lampDelta := by
    decide
  have checked : ¬Unchecked valuePlatform.toTextLayer (deltaDocument [lampPatch]) := by
    rintro ⟨doc, parsed, empty | stray⟩
    · cases parsed
      exact absurd empty.2 (by decide)
    · cases parsed
      exact absurd stray.1 (by decide)
  have legal := decoded_frames_legal.1 _ _ decoded rfl
  exact ⟨decoded, (legal.mpr checked).2⟩

/-- A `delta` without patches is decoded, and so is a `snapshot` with the key `stage left`. -/
theorem decoded_frames_illegal :
    (∃ frame, decodeServer valuePlatform.toTextLayer (deltaDocument []) = .ok frame ∧
      ¬frame.WellFormed) ∧
      ∃ frame, decodeServer valuePlatform.toTextLayer (snapshotDocument "stage left") = .ok frame ∧
        ¬frame.WellFormed := by
  constructor
  · exact ⟨.delta { seq := 2, patches := [] }, by decide, fun wf => wf.1 rfl⟩
  · refine ⟨.snapshot { seq := 1, sceneId := "main", sceneVersion := "1"
                        state := overwrite ∅ [("stage left", .bool true)] }, rfl, fun wf => ?_⟩
    obtain ⟨v, member⟩ := State.mem_keys_iff.mpr ⟨Value.bool true, List.mem_singleton.mpr rfl⟩
    have unparsed : ¬LeafPath.Valid "stage left" := by decide
    exact unparsed (wf _ member).1

end Lumencast.Protocol
