import Lumencast.Protocol.Bundle
import Lumencast.Protocol.RoundTrip

/-!
# The canonical form of bundles

A bundle is served and hashed in its canonical serialisation, in which empty lists
and absent fields are skipped. Reading it back gives the bundle, for every bundle
that the parser has accepted.

The other direction is about documents. A document is the canonical form of the
bundle it is read as only when it has no field that the bundle drops: an unknown
field, an explicit `null`, or an empty list.
-/

namespace Lumencast.Protocol

open Foundation

variable {Text : Type}

/-- A list field is found under its name only, when it is not empty. -/
@[simp] theorem lookup_listField {α : Type} (name k : String) (encode : α → Value) (as : List α)
    (rest : List (String × Value)) :
    ((listField name encode as).reverse ++ rest).lookup k =
      if k = name then (Decode.writtenList encode as).or (rest.lookup k) else rest.lookup k := by
  cases as with
  | nil => simp [listField, Decode.writtenList]
  | cons a as =>
      rw [listField, Decode.writtenList]
      simp

theorem keys_optionalField {α : Type} {p : String → Prop} (name : String) (encode : α → Value)
    (o : Option α) : (∀ f ∈ optionalField name encode o, p f.1) ↔ (o.isSome → p name) := by
  cases o <;> simp [optionalField]

theorem keys_listField {α : Type} {p : String → Prop} (name : String) (encode : α → Value)
    (as : List α) : (∀ f ∈ listField name encode as, p f.1) ↔ (as ≠ [] → p name) := by
  cases as <;> simp [listField]

namespace OperatorInput

/-- The wire names of the fields of a row. -/
def fieldNames : List String :=
  ["path", "label", "type", "constraints", "writable_by", "group", "values"]

/-- The fields that a row is written with. -/
def fields (op : OperatorInput) : List (String × Value) :=
  [("path", .string op.path), ("label", .string op.label), ("type", .string op.kind)] ++
    optionalField "constraints" id op.constraints ++
    listField "writable_by" .string op.writableBy ++ optionalField "group" .string op.group ++
    optionalField "values" id op.values

theorem toValue_eq (op : OperatorInput) : op.toValue = objectOf op.fields := rfl

/-- The fields that a row is read from. -/
structure Reads (look : String → Option Value) (op : OperatorInput) : Prop where
  path : Decode.required look "path" Decode.string = .ok op.path
  label : Decode.required look "label" Decode.string = .ok op.label
  kind : Decode.required look "type" Decode.string = .ok op.kind
  constraints : Decode.optional look "constraints" Decode.value = .ok op.constraints
  writableBy : Decode.defaulted look "writable_by" (Decode.list Decode.string) [] =
    .ok op.writableBy
  group : Decode.optional look "group" Decode.string = .ok op.group
  values : Decode.optional look "values" Decode.value = .ok op.values

theorem ofValue_eq_ok {v : Value} {op : OperatorInput} :
    ofValue v = .ok op ↔ ∃ look, Decode.record fieldNames v = .ok look ∧ Reads look op := by
  unfold ofValue
  simp only [bind_eq_ok, pure_eq_ok]
  constructor
  · rintro ⟨look, record, path, hpath, label, hlabel, kind, hkind, constraints, hconstraints,
      writableBy, hwritable, group, hgroup, values, hvalues, rfl⟩
    exact ⟨look, record, hpath, hlabel, hkind, hconstraints, hwritable, hgroup, hvalues⟩
  · rintro ⟨look, record, reads⟩
    exact ⟨look, record, _, reads.path, _, reads.label, _, reads.kind, _, reads.constraints, _,
      reads.writableBy, _, reads.group, _, reads.values, rfl⟩

/-- The optional values are not `null`. -/
structure Present (op : OperatorInput) : Prop where
  constraints : ∀ v ∈ op.constraints, v ≠ .null
  values : ∀ v ∈ op.values, v ≠ .null

/-- The parser reads `null` as an absent value. -/
theorem present_of_ofValue {v : Value} {op : OperatorInput} (decoded : ofValue v = .ok op) :
    op.Present := by
  obtain ⟨look, _, reads⟩ := ofValue_eq_ok.mp decoded
  exact ⟨Decode.ne_null_of_optional reads.constraints, Decode.ne_null_of_optional reads.values⟩

theorem inverts {op : OperatorInput} (present : op.Present) :
    Decode.Inverts ofValue toValue op := by
  obtain ⟨content, written, read⟩ := exists_objectOf op.fields
  refine ofValue_eq_ok.mpr ⟨(content.lookup ·), by rw [toValue_eq, written]; rfl, ?_⟩
  exact
    { path := Decode.required_string (by simp [read, fields])
      label := Decode.required_string (by simp [read, fields])
      kind := Decode.required_string (by simp [read, fields])
      constraints := Decode.optional_of_eq (fun v _ => Decode.value_inverts v) present.constraints
        (by simp [read, fields])
      writableBy := Decode.defaulted_list (fun s _ => Decode.string_inverts s)
        (by simp [read, fields])
      group := Decode.optional_string (by simp [read, fields])
      values := Decode.optional_of_eq (fun v _ => Decode.value_inverts v) present.values
        (by simp [read, fields]) }

/-- A row without unknown fields, explicit `null`s and empty lists. -/
def Canonical : Value → Prop
  | .object fields => (∀ f ∈ fields, f.1 ∈ fieldNames) ∧
      fields.lookup "constraints" ≠ some .null ∧ fields.lookup "writable_by" ≠ some (.array []) ∧
      fields.lookup "group" ≠ some .null ∧ fields.lookup "values" ≠ some .null
  | .null | .bool _ | .number _ | .string _ | .array _ => False

instance : DecidablePred Canonical
  | .object _ => inferInstanceAs (Decidable (_ ∧ _ ∧ _ ∧ _ ∧ _))
  | .null | .bool _ | .number _ | .string _ | .array _ => isFalse id

theorem keys_fields (op : OperatorInput) : ∀ f ∈ op.fields, f.1 ∈ fieldNames := by
  simp only [fields, List.forall_mem_append, List.forall_mem_cons, keys_optionalField,
    keys_listField, fieldNames]
  simp

/-- A row is written back exactly when it is canonical. -/
theorem toValue_eq_iff {v : Value} {op : OperatorInput} (sorted : v.isSorted = true)
    (decoded : ofValue v = .ok op) : op.toValue = v ↔ Canonical v := by
  obtain ⟨look, record, reads⟩ := ofValue_eq_ok.mp decoded
  cases v with
  | object content =>
      obtain rfl : (content.lookup ·) = look := Except.ok.inj record
      have path := Decode.eq_some_of_required Decode.string_exact reads.path
      have label := Decode.eq_some_of_required Decode.string_exact reads.label
      have kind := Decode.eq_some_of_required Decode.string_exact reads.kind
      have named : (∀ k ∈ fieldNames, op.fields.reverse.lookup k = content.lookup k) ↔
          op.constraints.map id = content.lookup "constraints" ∧
          Decode.writtenList .string op.writableBy = content.lookup "writable_by" ∧
          op.group.map .string = content.lookup "group" ∧
          op.values.map id = content.lookup "values" := by
        simp [fieldNames, fields, path, label, kind]
      have writableBy := Decode.list_exact_iff Value.string reads.writableBy
      rw [toValue_eq, objectOf_eq_object_iff op.keys_fields (Value.keySorted_of_isSorted sorted),
        named, Decode.optional_exact_iff Decode.value_exact reads.constraints, writableBy,
        Decode.optional_exact_iff Decode.string_exact reads.group,
        Decode.optional_exact_iff Decode.value_exact reads.values]
      simp [Canonical, Decode.string_exact]
  | null | bool | number | string | array => simp [toValue_eq, objectOf, Canonical]

end OperatorInput

namespace Bundle

/-- The wire names of the fields of a bundle. -/
def fieldNames : List String :=
  ["lsml", "scene_id", "scene_version", "layout", "operator_inputs", "external_adapters",
    "defaults", "assets", "i18n", "metadata"]

/-- The defaults, skipped when empty. -/
def defaultsField (defaults : State) : List (String × Value) :=
  if defaults.isEmpty then [] else [("defaults", State.toValue defaults)]

/-- The fields that a bundle is written with. -/
def fields (b : Bundle) : List (String × Value) :=
  [("lsml", .string b.lsml), ("scene_id", .string b.sceneId),
      ("scene_version", .string b.sceneVersion), ("layout", b.layout)] ++
    listField "operator_inputs" OperatorInput.toValue b.operatorInputs ++
    listField "external_adapters" id b.externalAdapters ++ defaultsField b.defaults ++
    optionalField "assets" id b.assets ++ optionalField "i18n" id b.i18n ++
    optionalField "metadata" id b.metadata

theorem toValue_eq (b : Bundle) : b.toValue = objectOf b.fields := rfl

/-- The field that the defaults are found under. -/
def writtenDefaults (defaults : State) : Option Value :=
  if defaults.isEmpty then none else some (State.toValue defaults)

@[simp] theorem lookup_defaultsField (k : String) (defaults : State)
    (rest : List (String × Value)) :
    ((defaultsField defaults).reverse ++ rest).lookup k =
      if k = "defaults" then (writtenDefaults defaults).or (rest.lookup k) else rest.lookup k := by
  unfold defaultsField writtenDefaults
  split <;> simp

theorem keys_defaultsField {p : String → Prop} (defaults : State) :
    (∀ f ∈ defaultsField defaults, p f.1) ↔ (defaults.isEmpty = false → p "defaults") := by
  unfold defaultsField
  cases defaults.isEmpty <;> simp

theorem defaulted_defaults {look : String → Option Value} {defaults : State}
    (found : look "defaults" = writtenDefaults defaults) :
    Decode.defaulted look "defaults" State.ofValue ∅ = .ok defaults := by
  unfold writtenDefaults at found
  split at found
  · next empty =>
    obtain rfl := Std.ExtTreeMap.isEmpty_iff.mp empty
    exact Decode.defaulted_of_none ∅ found
  · exact Decode.defaulted_of_some ∅ (State.inverts defaults) found

/-- Sorted defaults are written back unless they were empty. -/
theorem defaults_exact_iff {look : String → Option Value} {defaults : State}
    (sorted : ∀ v, look "defaults" = some v → v.isSorted = true)
    (decoded : Decode.defaulted look "defaults" State.ofValue ∅ = .ok defaults) :
    writtenDefaults defaults = look "defaults" ↔ look "defaults" ≠ some (.object []) := by
  unfold Decode.defaulted at decoded
  cases found : look "defaults" with
  | none =>
      rw [found] at decoded
      cases decoded
      simp [writtenDefaults]
  | some v =>
      rw [found] at decoded
      cases v with
      | object entries =>
          have listed := (Value.keySorted_of_isSorted (sorted _ found)).toList_overwrite
          obtain rfl : overwrite ∅ entries = defaults := Except.ok.inj decoded
          unfold writtenDefaults
          cases entries with
          | nil => simp
          | cons e entries =>
              have some_entry : (overwrite (∅ : State) (e :: entries)).isEmpty = false := by
                rw [← Std.ExtTreeMap.isEmpty_toList, listed]
                rfl
              rw [some_entry, State.toValue, listed]
              simp
      | null | bool | number | string | array => cases decoded

/-- The fields that a bundle is read from. -/
structure Reads (look : String → Option Value) (b : Bundle) : Prop where
  lsml : Decode.required look "lsml" Decode.string = .ok b.lsml
  sceneId : Decode.required look "scene_id" Decode.string = .ok b.sceneId
  sceneVersion : Decode.required look "scene_version" Decode.string = .ok b.sceneVersion
  layout : Decode.required look "layout" Decode.value = .ok b.layout
  operatorInputs : Decode.defaulted look "operator_inputs" (Decode.list OperatorInput.ofValue) [] =
    .ok b.operatorInputs
  externalAdapters : Decode.defaulted look "external_adapters" (Decode.list Decode.value) [] =
    .ok b.externalAdapters
  defaults : Decode.defaulted look "defaults" State.ofValue ∅ = .ok b.defaults
  assets : Decode.optional look "assets" Decode.value = .ok b.assets
  i18n : Decode.optional look "i18n" Decode.value = .ok b.i18n
  metadata : Decode.optional look "metadata" Decode.value = .ok b.metadata

theorem ofValue_eq_ok {v : Value} {b : Bundle} :
    ofValue v = .ok b ↔ ∃ look, Decode.record fieldNames v = .ok look ∧ Reads look b := by
  unfold ofValue
  simp only [bind_eq_ok, pure_eq_ok]
  constructor
  · rintro ⟨look, record, lsml, hlsml, sceneId, hsceneId, sceneVersion, hsceneVersion, layout,
      hlayout, operatorInputs, hoperatorInputs, externalAdapters, hexternalAdapters, defaults,
      hdefaults, assets, hassets, i18n, hi18n, metadata, hmetadata, rfl⟩
    exact ⟨look, record, hlsml, hsceneId, hsceneVersion, hlayout, hoperatorInputs,
      hexternalAdapters, hdefaults, hassets, hi18n, hmetadata⟩
  · rintro ⟨look, record, reads⟩
    exact ⟨look, record, _, reads.lsml, _, reads.sceneId, _, reads.sceneVersion, _, reads.layout,
      _, reads.operatorInputs, _, reads.externalAdapters, _, reads.defaults, _, reads.assets, _,
      reads.i18n, _, reads.metadata, rfl⟩

/-- The optional values are not `null`, in the rows of inputs as well. -/
structure Present (b : Bundle) : Prop where
  operatorInputs : ∀ op ∈ b.operatorInputs, op.Present
  assets : ∀ v ∈ b.assets, v ≠ .null
  i18n : ∀ v ∈ b.i18n, v ≠ .null
  metadata : ∀ v ∈ b.metadata, v ≠ .null

theorem present_of_ofValue {v : Value} {b : Bundle} (decoded : ofValue v = .ok b) :
    b.Present := by
  obtain ⟨look, _, reads⟩ := ofValue_eq_ok.mp decoded
  refine ⟨fun op member => ?_, Decode.ne_null_of_optional reads.assets,
    Decode.ne_null_of_optional reads.i18n, Decode.ne_null_of_optional reads.metadata⟩
  have rows := reads.operatorInputs
  unfold Decode.defaulted at rows
  split at rows
  · next items _ =>
    cases items with
    | array items =>
        obtain ⟨row, _, row_decoded⟩ := exists_of_mem_mapM rows op member
        exact OperatorInput.present_of_ofValue row_decoded
    | null | bool | number | string | object => cases rows
  · rw [← Except.ok.inj rows] at member
    cases member

theorem inverts {b : Bundle} (present : b.Present) : Decode.Inverts ofValue toValue b := by
  obtain ⟨content, written, read⟩ := exists_objectOf b.fields
  refine ofValue_eq_ok.mpr ⟨(content.lookup ·), by rw [toValue_eq, written]; rfl, ?_⟩
  exact
    { lsml := Decode.required_string (by simp [read, fields])
      sceneId := Decode.required_string (by simp [read, fields])
      sceneVersion := Decode.required_string (by simp [read, fields])
      layout := Decode.required_of_eq (Decode.value_inverts b.layout) (by simp [read, fields])
      operatorInputs := Decode.defaulted_list
        (fun op member => OperatorInput.inverts (present.operatorInputs op member))
        (by simp [read, fields])
      externalAdapters := Decode.defaulted_list (fun v _ => Decode.value_inverts v)
        (by simp [read, fields])
      defaults := defaulted_defaults (by simp [read, fields])
      assets := Decode.optional_of_eq (fun v _ => Decode.value_inverts v) present.assets
        (by simp [read, fields])
      i18n := Decode.optional_of_eq (fun v _ => Decode.value_inverts v) present.i18n
        (by simp [read, fields])
      metadata := Decode.optional_of_eq (fun v _ => Decode.value_inverts v) present.metadata
        (by simp [read, fields]) }

theorem keys_fields (b : Bundle) : ∀ f ∈ b.fields, f.1 ∈ fieldNames := by
  simp only [fields, List.forall_mem_append, List.forall_mem_cons, keys_optionalField,
    keys_listField, keys_defaultsField, fieldNames]
  simp

/-- A bundle document without unknown fields, explicit `null`s and empty lists, whose
rows of inputs are canonical. -/
def Canonical : Value → Prop
  | .object fields => (∀ f ∈ fields, f.1 ∈ fieldNames) ∧
      fields.lookup "operator_inputs" ≠ some (.array []) ∧
      fields.lookup "external_adapters" ≠ some (.array []) ∧
      fields.lookup "defaults" ≠ some (.object []) ∧ fields.lookup "assets" ≠ some .null ∧
      fields.lookup "i18n" ≠ some .null ∧ fields.lookup "metadata" ≠ some .null ∧
      ∀ row ∈ ((fields.lookup "operator_inputs").bind Value.asArray).getD [],
        OperatorInput.Canonical row
  | .null | .bool _ | .number _ | .string _ | .array _ => False

instance : DecidablePred Canonical
  | .object _ => inferInstanceAs (Decidable (_ ∧ _ ∧ _ ∧ _ ∧ _ ∧ _ ∧ _ ∧ _))
  | .null | .bool _ | .number _ | .string _ | .array _ => isFalse id

/-- The rows of a document that was read are written back exactly when they are canonical. -/
theorem rows_exact_iff {content : List (String × Value)} {ops : List OperatorInput}
    (sorted : (Value.object content).isSorted = true)
    (decoded : Decode.defaulted (content.lookup ·) "operator_inputs"
      (Decode.list OperatorInput.ofValue) [] = .ok ops) :
    ∀ row ∈ ((content.lookup "operator_inputs").bind Value.asArray).getD [],
      (Decode.Exact OperatorInput.ofValue OperatorInput.toValue row ↔
        OperatorInput.Canonical row) := by
  unfold Decode.defaulted at decoded
  cases found : content.lookup "operator_inputs" with
  | none => simp
  | some v =>
      simp only [found] at decoded
      cases v with
      | array rows =>
          intro row member
          obtain ⟨op, row_decoded⟩ := exists_result_of_mem decoded row member
          have row_sorted := Value.isSorted_item (Value.isSorted_field sorted found) member
          rw [Decode.exact_iff_of_decoded row_decoded]
          exact OperatorInput.toValue_eq_iff row_sorted row_decoded
      | null | bool | number | string | object => cases decoded

/-- A document is the serialisation of the bundle it is read as exactly when it is
canonical. -/
theorem toValue_eq_iff {v : Value} {b : Bundle} (sorted : v.isSorted = true)
    (decoded : ofValue v = .ok b) : b.toValue = v ↔ Canonical v := by
  obtain ⟨look, record, reads⟩ := ofValue_eq_ok.mp decoded
  cases v with
  | object content =>
      obtain rfl : (content.lookup ·) = look := Except.ok.inj record
      have lsml := Decode.eq_some_of_required Decode.string_exact reads.lsml
      have sceneId := Decode.eq_some_of_required Decode.string_exact reads.sceneId
      have sceneVersion := Decode.eq_some_of_required Decode.string_exact reads.sceneVersion
      have layout := Decode.eq_some_of_required Decode.value_exact reads.layout
      have named : (∀ k ∈ fieldNames, b.fields.reverse.lookup k = content.lookup k) ↔
          Decode.writtenList OperatorInput.toValue b.operatorInputs =
            content.lookup "operator_inputs" ∧
          Decode.writtenList id b.externalAdapters = content.lookup "external_adapters" ∧
          writtenDefaults b.defaults = content.lookup "defaults" ∧
          b.assets.map id = content.lookup "assets" ∧
          b.i18n.map id = content.lookup "i18n" ∧
          b.metadata.map id = content.lookup "metadata" := by
        simp [fieldNames, fields, lsml, sceneId, sceneVersion, layout]
      have rows := rows_exact_iff sorted reads.operatorInputs
      have inputs := Decode.list_exact_iff OperatorInput.toValue reads.operatorInputs
      have adapters := Decode.list_exact_iff id reads.externalAdapters
      have defaults := defaults_exact_iff (fun _ => Value.isSorted_field sorted) reads.defaults
      rw [toValue_eq, objectOf_eq_object_iff b.keys_fields (Value.keySorted_of_isSorted sorted),
        named, inputs, adapters, defaults,
        Decode.optional_exact_iff Decode.value_exact reads.assets,
        Decode.optional_exact_iff Decode.value_exact reads.i18n,
        Decode.optional_exact_iff Decode.value_exact reads.metadata, forall₂_congr rows]
      simp only [Canonical, Decode.value_exact, implies_true, and_true]
      -- the rows come last in `Canonical`
      constructor
      · rintro ⟨known, ⟨inputs, rows⟩, adapters, defaults, assets, i18n, metadata⟩
        exact ⟨known, inputs, adapters, defaults, assets, i18n, metadata, rows⟩
      · rintro ⟨known, inputs, adapters, defaults, assets, i18n, metadata, rows⟩
        exact ⟨known, ⟨inputs, rows⟩, adapters, defaults, assets, i18n, metadata⟩
  | null | bool | number | string | array => simp [toValue_eq, objectOf, Canonical]

/-! ## Hashing -/

/-- A bundle is hashed as it would be served with the placeholder version. -/
theorem toCanonicalBytesForHashing_eq (P : Platform Text) (b : Bundle) :
    b.toCanonicalBytesForHashing P =
      { b with sceneVersion := placeholderHash }.toCanonicalBytes P := by
  obtain ⟨content, written, sorted, read⟩ := exists_sorted_objectOf b.fields
  obtain ⟨content', written', sorted', read'⟩ :=
    exists_sorted_objectOf { b with sceneVersion := placeholderHash }.fields
  have replaced : insertField "scene_version" (.string placeholderHash) content = content' := by
    refine (sorted.insertField _ _).ext sorted' fun k => ?_
    rw [lookup_insertField, read, read']
    by_cases version : k = "scene_version"
    · subst version
      simp [fields]
    · simp [fields, version]
  rw [toCanonicalBytesForHashing, toValue_eq, written, toCanonicalBytes, toValue_eq, written']
  exact congrArg (fun fields => P.toText (.object fields)) replaced

/-- The declared version takes no part in the content hash. -/
theorem computeContentHash_setVersion (P : Platform Text) (b : Bundle) (version : SceneVersion) :
    ({ b with sceneVersion := version } : Bundle).computeContentHash P =
      b.computeContentHash P := by
  rw [computeContentHash, toCanonicalBytesForHashing_eq, computeContentHash,
    toCanonicalBytesForHashing_eq]

/-- What the parser accepted is read back from its canonical bytes. -/
theorem parse_toCanonicalBytes {P : Platform Text} {text : Text} {b : Bundle}
    (parsed : parse P text = .ok b) (version : SceneVersion)
    (back : P.ReadsBack { b with sceneVersion := version }.toValue) :
    parse P ({ b with sceneVersion := version }.toCanonicalBytes P) =
      .ok { b with sceneVersion := version } := by
  obtain ⟨raw, _, decoded, valid⟩ := parse_eq_ok.mp parsed
  have present := present_of_ofValue decoded
  have again : Bundle.Present { b with sceneVersion := version } :=
    ⟨present.operatorInputs, present.assets, present.i18n, present.metadata⟩
  exact parse_eq_ok.mpr ⟨_, back, inverts again, valid⟩

/-- The hash of a scenario's inline bundle, taken over the document itself. -/
def hashInlineBundle (P : Platform Text) (value : Value) : String :=
  hashToSceneVersion P (P.toText value)

/-- For every document that the parser accepts and that declares the placeholder version:
the bytes hashed for the parsed bundle are those of the document itself exactly when the
document is canonical, and the two hashes then agree. -/
theorem canonical_bytes_iff {P : Platform Text} (injective : Function.Injective P.toText)
    {text : Text} {document : Value} {b : Bundle} (read : P.fromText text = .ok document)
    (sorted : document.isSorted = true)
    (placeholder : document.asObject.bind (·.lookup "scene_version") =
      some (.string placeholderHash))
    (parsed : parse P text = .ok b) :
    (b.toCanonicalBytesForHashing P = P.toText document ↔ Canonical document) ∧
      (Canonical document → b.computeContentHash P = hashInlineBundle P document) := by
  obtain ⟨raw, read', decoded, _⟩ := parse_eq_ok.mp parsed
  obtain rfl : document = raw := by
    rw [read] at read'
    exact Except.ok.inj read'
  have version : b.sceneVersion = placeholderHash := by
    obtain ⟨look, record, reads⟩ := ofValue_eq_ok.mp decoded
    cases document with
    | object content =>
        obtain rfl : (content.lookup ·) = look := Except.ok.inj record
        have declared := Decode.eq_some_of_required Decode.string_exact reads.sceneVersion
        have found : content.lookup "scene_version" = some (.string placeholderHash) := placeholder
        simp only [found] at declared
        injection declared with declared
        injection declared with declared
        exact declared.symm
    | null | bool | number | string | array => cases placeholder
  have bytes : b.toCanonicalBytesForHashing P = P.toText b.toValue := by
    rw [toCanonicalBytesForHashing_eq, ← version]
    rfl
  have same : b.toCanonicalBytesForHashing P = P.toText document ↔ Canonical document := by
    rw [bytes, ← toValue_eq_iff sorted decoded]
    exact injective.eq_iff
  refine ⟨same, fun canonical => ?_⟩
  rw [computeContentHash, same.mpr canonical, hashInlineBundle]

/-- A document with the placeholder version and the given further fields. -/
private def studioDocument (more : List (String × Value)) : Value :=
  objectOf ([("lsml", .string "1.0"), ("scene_id", .string "studio"),
    ("scene_version", .string placeholderHash), ("layout", .object [("kind", .string "text")])] ++
      more)

private def lampInput : Value :=
  objectOf [("path", .string "__inputs.lamp"), ("label", .string "Lamp"),
    ("type", .string "boolean"), ("writable_by", .array [.string "operator"])]

private def lampDocument : Value :=
  studioDocument [("operator_inputs", .array [lampInput]),
    ("defaults", .object [("lamp", .bool true)])]

theorem canonical_bytes_iff_lampDocument :
    ∃ b, parse valuePlatform lampDocument = .ok b ∧ b.operatorInputs.length = 1 ∧
      b.toCanonicalBytesForHashing valuePlatform = lampDocument := by
  have parses : (parse valuePlatform lampDocument).toOption.any (fun b =>
      b.operatorInputs.length = 1) = true := by
    decide
  obtain ⟨b, parsed, inputs⟩ := exists_ok_of_any parses
  refine ⟨b, parsed, inputs, ?_⟩
  exact (canonical_bytes_iff (P := valuePlatform) Function.injective_id rfl (by decide) (by decide)
    parsed).1.mpr (by decide)

/-- An empty list of inputs is dropped from what is hashed. -/
theorem bytes_ne_of_emptyInputs :
    let document := studioDocument [("operator_inputs", .array [])]
    document.isSorted = true ∧
      document.asObject.bind (·.lookup "scene_version") = some (.string placeholderHash) ∧
      ∃ b, parse valuePlatform document = .ok b ∧
        b.toCanonicalBytesForHashing valuePlatform ≠ valuePlatform.toText document := by
  intro document
  have parses : (parse valuePlatform document).toOption.any (fun b =>
      b.toCanonicalBytesForHashing valuePlatform ≠ valuePlatform.toText document) = true := by
    decide
  exact ⟨by decide, by decide, exists_ok_of_any parses⟩

end Bundle
end Lumencast.Protocol
