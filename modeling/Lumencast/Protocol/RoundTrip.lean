import Lumencast.Foundation.Record
import Lumencast.Protocol.Codec

/-!
# The codec round trip

What is encoded is decoded as it was, for every frame of both directions. Each
record has its own lemma, from the directives of a patch up to the frames; a frame
is read behind its tag and its envelope, so its lemma is about any object that
agrees with the written fields apart from these two keys.
-/

namespace Lumencast.Protocol

open Foundation

variable {Text : Type}

/-- An optional field is found under its name only. -/
@[simp] theorem lookup_optionalField {α : Type} (name k : String) (encode : α → Value)
    (o : Option α) (rest : List (String × Value)) :
    ((optionalField name encode o).reverse ++ rest).lookup k =
      if k = name then (o.map encode).or (rest.lookup k) else rest.lookup k := by
  cases o with
  | none => simp [optionalField]
  | some a =>
      rw [optionalField, List.reverse_singleton, List.singleton_append, lookup_cons_ite]
      split <;> rfl

theorem u64_natValue (n : Nat) : Decode.Inverts Decode.u64 natValue n := rfl

theorem u32_natValue {n : Nat} (fits : n < 2 ^ 32) : Decode.Inverts Decode.u32 natValue n :=
  Decode.u32_inverts fits

theorem f64_floatValue (q : ℚ) : Decode.Inverts Decode.f64 floatValue q := rfl

theorem natValue_ne_null (n : Nat) : natValue n ≠ .null := nofun

theorem floatValue_ne_null (q : ℚ) : floatValue q ≠ .null := nofun

theorem objectOf_ne_null (fields : List (String × Value)) : objectOf fields ≠ .null := nofun

namespace Easing

theorem inverts (e : Easing) : Decode.Inverts ofValue toValue e := by
  cases e <;> rfl

theorem toValue_ne_null (e : Easing) : e.toValue ≠ .null := by
  cases e <;> nofun

end Easing

namespace ErrorCode

theorem inverts (code : ErrorCode) : Decode.Inverts ofValue toValue code := by
  rw [Decode.Inverts, toValue, ofValue, Decode.variant, lookup_asWireStr]
  rfl

end ErrorCode

namespace State

theorem inverts (state : State) : Decode.Inverts ofValue toValue state := by
  change Except.ok (overwrite ∅ state.toList) = .ok state
  rw [overwrite_toList]

end State

namespace LeafPath

theorem inverts {p : LeafPath} (valid : Valid p.str) : Decode.Inverts ofValue toValue p :=
  ofValue_eq_ok.mpr ⟨rfl, valid⟩

end LeafPath

namespace TransitionSpec

/-- The duration is a 32-bit number. -/
def InRange : TransitionSpec → Prop
  | tween durationMs _ => ∀ n ∈ durationMs, n < 2 ^ 32
  | spring .. | snap => True

instance : DecidablePred InRange
  | tween durationMs _ => inferInstanceAs (Decidable (∀ n ∈ durationMs, n < 2 ^ 32))
  | spring .. | snap => isTrue trivial

theorem toValue_ne_null (t : TransitionSpec) : t.toValue ≠ .null := by
  cases t <;> exact objectOf_ne_null _

theorem inverts {t : TransitionSpec} (fits : t.InRange) : Decode.Inverts ofValue toValue t := by
  cases t with
  | tween durationMs easing =>
      let fields := [("kind", .string "tween")] ++
        optionalField "duration_ms" natValue durationMs ++
        optionalField "easing" Easing.toValue easing
      obtain ⟨content, tagged, read⟩ : ∃ content, Decode.tagged "kind" ["tween", "spring", "snap"]
          true (objectOf fields) = .ok ("tween", .object content) ∧ _ :=
        tagged_objectOf true (by simp [fields]) (by simp)
      have duration : Decode.optional (content.lookup ·) "duration_ms" Decode.u32 =
          .ok durationMs :=
        Decode.optional_of_eq (fun n hn => u32_natValue (fits n hn))
          (fun n _ => natValue_ne_null n) (by simp [read, fields])
      have eased : Decode.optional (content.lookup ·) "easing" Easing.ofValue = .ok easing :=
        Decode.optional_of_eq (fun e _ => e.inverts) (fun e _ => e.toValue_ne_null)
          (by simp [read, fields])
      rw [Decode.Inverts, toValue, ofValue, tagged]
      simp [bind, Except.bind, Decode.record, duration, eased, pure, Except.pure]
  | spring stiffness damping =>
      let fields := [("kind", .string "spring")] ++
        optionalField "stiffness" floatValue stiffness ++
        optionalField "damping" floatValue damping
      obtain ⟨content, tagged, read⟩ : ∃ content, Decode.tagged "kind" ["tween", "spring", "snap"]
          true (objectOf fields) = .ok ("spring", .object content) ∧ _ :=
        tagged_objectOf true (by simp [fields]) (by simp)
      have stiff : Decode.optional (content.lookup ·) "stiffness" Decode.f64 = .ok stiffness :=
        Decode.optional_of_eq (fun q _ => f64_floatValue q) (fun q _ => floatValue_ne_null q)
          (by simp [read, fields])
      have damped : Decode.optional (content.lookup ·) "damping" Decode.f64 = .ok damping :=
        Decode.optional_of_eq (fun q _ => f64_floatValue q) (fun q _ => floatValue_ne_null q)
          (by simp [read, fields])
      rw [Decode.Inverts, toValue, ofValue, tagged]
      simp [bind, Except.bind, Decode.record, stiff, damped, pure, Except.pure]
  | snap => rfl

end TransitionSpec

namespace Patch

/-- A patch that a peer can be sent: a parsed path, a leaf value and a directive in range. -/
structure Legal (p : Patch) : Prop where
  path : LeafPath.Valid p.path.str
  leaf : p.isValueLegal = true
  transition : ∀ t ∈ p.transition, t.InRange

theorem inverts {p : Patch} (legal : p.Legal) : Decode.Inverts ofValue toValue p := by
  let fields := [("path", p.path.toValue), ("value", p.value)] ++
    optionalField "transition" TransitionSpec.toValue p.transition
  obtain ⟨content, written, read⟩ := exists_objectOf fields
  have path : Decode.required (content.lookup ·) "path" LeafPath.ofValue = .ok p.path :=
    Decode.required_of_eq (LeafPath.inverts legal.path) (by simp [read, fields])
  have value : Decode.required (content.lookup ·) "value" Decode.value = .ok p.value :=
    Decode.required_of_eq (Decode.value_inverts p.value) (by simp [read, fields])
  have transition : Decode.optional (content.lookup ·) "transition" TransitionSpec.ofValue =
      .ok p.transition :=
    Decode.optional_of_eq (fun t ht => TransitionSpec.inverts (legal.transition t ht))
      (fun t _ => t.toValue_ne_null) (by simp [read, fields])
  rw [Decode.Inverts, toValue, written]
  exact ofValue_eq_ok.mpr ⟨_, rfl, path, value, transition⟩

end Patch

namespace Cause

theorem toValue_ne_null (c : Cause) : c.toValue ≠ .null := objectOf_ne_null _

theorem inverts (c : Cause) : Decode.Inverts ofValue toValue c := by
  let fields := [("source", .string c.source)] ++ optionalField "input_id" .string c.inputId
  obtain ⟨content, written, read⟩ := exists_objectOf fields
  have source : Decode.required (content.lookup ·) "source" Decode.string = .ok c.source :=
    Decode.required_string (by simp [read, fields])
  have inputId : Decode.optional (content.lookup ·) "input_id" Decode.string = .ok c.inputId :=
    Decode.optional_string (by simp [read, fields])
  rw [Decode.Inverts, toValue, written, ofValue]
  simp [Decode.record, bind, Except.bind, source, inputId, pure, Except.pure]

end Cause

namespace SceneTransition

theorem toValue_ne_null (t : SceneTransition) : t.toValue ≠ .null := objectOf_ne_null _

theorem inverts {t : SceneTransition} (fits : ∀ n ∈ t.durationMs, n < 2 ^ 32) :
    Decode.Inverts ofValue toValue t := by
  let fields := [("kind", .string t.kind)] ++ optionalField "duration_ms" natValue t.durationMs
  obtain ⟨content, written, read⟩ := exists_objectOf fields
  have kind : Decode.required (content.lookup ·) "kind" Decode.string = .ok t.kind :=
    Decode.required_string (by simp [read, fields])
  have duration : Decode.optional (content.lookup ·) "duration_ms" Decode.u32 =
      .ok t.durationMs :=
    Decode.optional_of_eq (fun n hn => u32_natValue (fits n hn)) (fun n _ => natValue_ne_null n)
      (by simp [read, fields])
  rw [Decode.Inverts, toValue, written, ofValue]
  simp [Decode.record, bind, Except.bind, kind, duration, pure, Except.pure]

end SceneTransition

/-! ## Envelopes -/

/-- The document of a frame with the given fields. -/
def withVersion (fields : List (String × Value)) : Value :=
  objectOf (fields ++ [("v", natValue protocolVersion)])

theorem injectVersion_objectOf (fields : List (String × Value)) :
    injectVersion (objectOf fields) = .ok (withVersion fields) := by
  rw [objectOf, injectVersion, withVersion, objectOf, List.foldl_append]
  rfl

theorem encodeWithEnvelope_objectOf (T : TextLayer Text) (fields : List (String × Value)) :
    encodeWithEnvelope T (objectOf fields) = .ok (T.toText (withVersion fields)) := by
  rw [encodeWithEnvelope, injectVersion_objectOf]
  rfl

/-- A document has the fields of its frame, apart from the version. -/
theorem exists_withVersion (fields : List (String × Value)) :
    ∃ content, withVersion fields = .object content ∧
      content.lookup "v" = some (natValue protocolVersion) ∧
      ∀ k, k ≠ "v" → content.lookup k = fields.reverse.lookup k := by
  obtain ⟨content, written, read⟩ := exists_objectOf (fields ++ [("v", natValue protocolVersion)])
  exact ⟨content, written, by simp [read], fun k unversioned => by simp [read, unversioned]⟩

/-- Behind the envelope a frame is read by its fields, apart from the two keys of the
envelope. -/
theorem decodeWithEnvelope_encodeWithEnvelope {α : Type} {T : TextLayer Text}
    {fields : List (String × Value)} (back : T.ReadsBack (withVersion fields)) {name : String}
    {names : List String} {ofContent : String → Value → Except JsonError α} {a : α}
    (typed : fields.reverse.lookup "type" = some (.string name)) (known : name ∈ names)
    (decoded : ∀ content : List (String × Value),
      (∀ k, k ≠ "type" → k ≠ "v" → content.lookup k = fields.reverse.lookup k) →
        ofContent name (.object content) = .ok a) :
    encodeWithEnvelope T (objectOf fields) >>= decodeWithEnvelope T (fun v => do
      let (name, content) ← Decode.tagged "type" names false v
      ofContent name content) = .ok a := by
  have checked : checkEnvelope (withVersion fields) = .ok () := by
    obtain ⟨content, written, version, read⟩ := exists_withVersion fields
    have kind : content.lookup "type" = some (.string name) := by simp [read, typed]
    simp [written, checkEnvelope, version, kind, natValue, Value.asU64, Number.asU64, pure,
      Except.pure]
  obtain ⟨content, tagged, read⟩ : ∃ content, Decode.tagged "type" names false
      (withVersion fields) = .ok (name, .object content) ∧ _ :=
    tagged_objectOf false (by simpa using typed) known
  have agrees : ∀ k, k ≠ "type" → k ≠ "v" → content.lookup k = fields.reverse.lookup k :=
    fun k untyped unversioned => by simp [read k untyped, unversioned]
  rw [encodeWithEnvelope_objectOf]
  change decodeWithEnvelope T _ (T.toText (withVersion fields)) = .ok a
  rw [decodeWithEnvelope, back]
  simp only [liftJson, bind, Except.bind, checked, tagged, decoded content agrees]

/-! ## Frames -/

/-- A frame that a server may send: legal patches and leaf values. -/
def ServerFrame.Legal : ServerFrame → Prop
  | .snapshot f => ∀ e ∈ f.state.toList, e.2.isObject = false
  | .delta f => ∀ p ∈ f.patches, p.Legal
  | .sceneChanged f => ∀ t ∈ f.transition, ∀ n ∈ t.durationMs, n < 2 ^ 32
  | .error _ | .pong _ => True

/-- A frame that a client may send. -/
def ClientFrame.Legal : ClientFrame → Prop
  | .input f => f.patches ≠ [] ∧ ∀ p ∈ f.patches, p.Legal
  | .subscribe _ | .ping _ | .unsubscribe _ => True

/-- What the encoder hands to the text layer. -/
def ServerFrame.document (frame : ServerFrame) : Value := withVersion frame.fields

def ClientFrame.document (frame : ClientFrame) : Value := withVersion frame.fields

namespace ServerFrame

/-- The wire form of the frame discriminator. -/
def typeStr : ServerFrame → String
  | snapshot _ => "snapshot"
  | delta _ => "delta"
  | sceneChanged _ => "scene_changed"
  | error _ => "error"
  | pong _ => "pong"

theorem lookup_type (frame : ServerFrame) :
    frame.fields.reverse.lookup "type" = some (.string frame.typeStr) := by
  cases frame <;> simp [fields, typeStr]

theorem ofContent_typeStr {frame : ServerFrame} (legal : frame.Legal)
    (content : List (String × Value))
    (read : ∀ k, k ≠ "type" → k ≠ "v" → content.lookup k = frame.fields.reverse.lookup k) :
    ofContent frame.typeStr (.object content) = .ok frame := by
  cases frame with
  | snapshot f =>
      have seq : Decode.required (content.lookup ·) "seq" Decode.u64 = .ok f.seq :=
        Decode.required_of_eq (u64_natValue f.seq) (by simp [read, fields])
      have sceneId : Decode.required (content.lookup ·) "scene_id" Decode.string =
          .ok f.sceneId :=
        Decode.required_string (by simp [read, fields])
      have sceneVersion : Decode.required (content.lookup ·) "scene_version" Decode.string =
          .ok f.sceneVersion :=
        Decode.required_string (by simp [read, fields])
      have state : Decode.required (content.lookup ·) "state" State.ofValue = .ok f.state :=
        Decode.required_of_eq (State.inverts f.state) (by simp [read, fields])
      have ts : Decode.optional (content.lookup ·) "ts" Decode.string = .ok f.ts :=
        Decode.optional_string (by simp [read, fields])
      simp [typeStr, ofContent, Decode.record, bind, Except.bind, seq, sceneId, sceneVersion,
        state, ts, pure, Except.pure]
  | delta f =>
      have seq : Decode.required (content.lookup ·) "seq" Decode.u64 = .ok f.seq :=
        Decode.required_of_eq (u64_natValue f.seq) (by simp [read, fields])
      have patches : Decode.required (content.lookup ·) "patches" (Decode.list Patch.ofValue) =
          .ok f.patches :=
        Decode.required_of_eq (Decode.list_inverts fun p hp => Patch.inverts (legal p hp))
          (by simp [read, fields])
      have ts : Decode.optional (content.lookup ·) "ts" Decode.string = .ok f.ts :=
        Decode.optional_string (by simp [read, fields])
      have cause : Decode.optional (content.lookup ·) "cause" Cause.ofValue = .ok f.cause :=
        Decode.optional_of_eq (fun c _ => c.inverts) (fun c _ => c.toValue_ne_null)
          (by simp [read, fields])
      simp [typeStr, ofContent, Decode.record, bind, Except.bind, seq, patches, ts, cause, pure,
        Except.pure]
  | sceneChanged f =>
      have seq : Decode.required (content.lookup ·) "seq" Decode.u64 = .ok f.seq :=
        Decode.required_of_eq (u64_natValue f.seq) (by simp [read, fields])
      have sceneId : Decode.required (content.lookup ·) "scene_id" Decode.string =
          .ok f.sceneId :=
        Decode.required_string (by simp [read, fields])
      have sceneVersion : Decode.required (content.lookup ·) "scene_version" Decode.string =
          .ok f.sceneVersion :=
        Decode.required_string (by simp [read, fields])
      have ts : Decode.optional (content.lookup ·) "ts" Decode.string = .ok f.ts :=
        Decode.optional_string (by simp [read, fields])
      have fromSceneId : Decode.optional (content.lookup ·) "from_scene_id" Decode.string =
          .ok f.fromSceneId :=
        Decode.optional_string (by simp [read, fields])
      have transition : Decode.optional (content.lookup ·) "transition" SceneTransition.ofValue =
          .ok f.transition :=
        Decode.optional_of_eq (fun t ht => SceneTransition.inverts (legal t ht))
          (fun t _ => t.toValue_ne_null) (by simp [read, fields])
      simp [typeStr, ofContent, Decode.record, bind, Except.bind, seq, sceneId, sceneVersion, ts,
        fromSceneId, transition, pure, Except.pure]
  | error f =>
      have seq : Decode.required (content.lookup ·) "seq" Decode.u64 = .ok f.seq :=
        Decode.required_of_eq (u64_natValue f.seq) (by simp [read, fields])
      have code : Decode.required (content.lookup ·) "code" ErrorCode.ofValue = .ok f.code :=
        Decode.required_of_eq f.code.inverts (by simp [read, fields])
      have message : Decode.required (content.lookup ·) "message" Decode.string =
          .ok f.message :=
        Decode.required_string (by simp [read, fields])
      have recoverable : Decode.required (content.lookup ·) "recoverable" Decode.bool =
          .ok f.recoverable :=
        Decode.required_of_eq (Decode.bool_inverts f.recoverable) (by simp [read, fields])
      have retryAfterMs : Decode.optional (content.lookup ·) "retry_after_ms" Decode.u64 =
          .ok f.retryAfterMs :=
        Decode.optional_of_eq (fun n _ => u64_natValue n) (fun n _ => natValue_ne_null n)
          (by simp [read, fields])
      have path : Decode.optional (content.lookup ·) "path" Decode.string = .ok f.path :=
        Decode.optional_string (by simp [read, fields])
      have ts : Decode.optional (content.lookup ·) "ts" Decode.string = .ok f.ts :=
        Decode.optional_string (by simp [read, fields])
      simp [typeStr, ofContent, Decode.record, bind, Except.bind, seq, code, message, recoverable,
        retryAfterMs, path, ts, pure, Except.pure]
  | pong f =>
      have nonce : Decode.optional (content.lookup ·) "nonce" Decode.string = .ok f.nonce :=
        Decode.optional_string (by simp [read, fields])
      simp [typeStr, ofContent, Decode.record, bind, Except.bind, nonce, pure, Except.pure]

theorem encodeServer_eq (T : TextLayer Text) (frame : ServerFrame) :
    encodeServer T frame = .ok (T.toText frame.document) :=
  encodeWithEnvelope_objectOf T frame.fields

theorem checkServerFrame_of_legal {frame : ServerFrame} (legal : frame.Legal) :
    checkServerFrame frame = .ok () := by
  cases frame with
  | snapshot f => exact validateEntries_eq_ok.mpr legal
  | delta f => exact validatePatches_eq_ok.mpr fun p hp => (legal p hp).leaf
  | sceneChanged f | error f | pong f => rfl

theorem decode_encode {T : TextLayer Text} {frame : ServerFrame} (legal : frame.Legal)
    (back : T.ReadsBack frame.document) : encodeServer T frame >>= decodeServer T = .ok frame := by
  have known : frame.typeStr ∈ typeNames := by cases frame <;> simp [typeStr, typeNames]
  obtain ⟨text, encoded, decoded⟩ := bind_eq_ok.mp (decodeWithEnvelope_encodeWithEnvelope back
    frame.lookup_type known (ofContent_typeStr legal))
  refine bind_eq_ok.mpr ⟨text, encoded, bind_eq_ok.mpr ⟨frame, decoded, ?_⟩⟩
  exact bind_eq_ok.mpr ⟨(), checkServerFrame_of_legal legal, rfl⟩

end ServerFrame

namespace ClientFrame

/-- The wire form of the frame discriminator. -/
def typeStr : ClientFrame → String
  | subscribe _ => "subscribe"
  | input _ => "input"
  | ping _ => "ping"
  | unsubscribe _ => "unsubscribe"

theorem lookup_type (frame : ClientFrame) :
    frame.fields.reverse.lookup "type" = some (.string frame.typeStr) := by
  cases frame <;> simp [fields, typeStr]

theorem ofContent_typeStr {frame : ClientFrame} (legal : frame.Legal)
    (content : List (String × Value))
    (read : ∀ k, k ≠ "type" → k ≠ "v" → content.lookup k = frame.fields.reverse.lookup k) :
    ofContent frame.typeStr (.object content) = .ok frame := by
  cases frame with
  | subscribe f =>
      have token : Decode.required (content.lookup ·) "token" Decode.string = .ok f.token :=
        Decode.required_string (by simp [read, fields])
      have scene : Decode.optional (content.lookup ·) "scene" Decode.string = .ok f.scene :=
        Decode.optional_string (by simp [read, fields])
      have session : Decode.optional (content.lookup ·) "session" Decode.string =
          .ok f.session :=
        Decode.optional_string (by simp [read, fields])
      have sinceSequence : Decode.optional (content.lookup ·) "since_sequence" Decode.u64 =
          .ok f.sinceSequence :=
        Decode.optional_of_eq (fun n _ => u64_natValue n) (fun n _ => natValue_ne_null n)
          (by simp [read, fields])
      simp [typeStr, ofContent, Decode.record, bind, Except.bind, token, scene, session,
        sinceSequence, pure, Except.pure]
  | input f =>
      have patches : Decode.required (content.lookup ·) "patches" (Decode.list Patch.ofValue) =
          .ok f.patches :=
        Decode.required_of_eq (Decode.list_inverts fun p hp => Patch.inverts (legal.2 p hp))
          (by simp [read, fields])
      have clientMsgId : Decode.optional (content.lookup ·) "client_msg_id" Decode.string =
          .ok f.clientMsgId :=
        Decode.optional_string (by simp [read, fields])
      simp [typeStr, ofContent, Decode.record, bind, Except.bind, patches, clientMsgId, pure,
        Except.pure]
  | ping f =>
      have nonce : Decode.optional (content.lookup ·) "nonce" Decode.string = .ok f.nonce :=
        Decode.optional_string (by simp [read, fields])
      simp [typeStr, ofContent, Decode.record, bind, Except.bind, nonce, pure, Except.pure]
  | unsubscribe f => rfl

theorem checkClientFrame_of_legal {frame : ClientFrame} (legal : frame.Legal) :
    checkClientFrame frame = .ok () := by
  cases frame with
  | input f => exact checkClientFrame_input_eq_ok.mpr ⟨legal.1, fun p hp => (legal.2 p hp).leaf⟩
  | subscribe f | ping f | unsubscribe f => rfl

theorem decode_encode {T : TextLayer Text} {frame : ClientFrame} (legal : frame.Legal)
    (back : T.ReadsBack frame.document) : encodeClient T frame >>= decodeClient T = .ok frame := by
  have known : frame.typeStr ∈ typeNames := by cases frame <;> simp [typeStr, typeNames]
  obtain ⟨text, encoded, decoded⟩ := bind_eq_ok.mp (decodeWithEnvelope_encodeWithEnvelope back
    frame.lookup_type known (ofContent_typeStr legal))
  refine bind_eq_ok.mpr ⟨text, encoded, bind_eq_ok.mpr ⟨frame, decoded, ?_⟩⟩
  exact bind_eq_ok.mpr ⟨(), checkClientFrame_of_legal legal, rfl⟩

end ClientFrame

/-- The string variants agree with the others on what they write. -/
theorem encodeStr_bind {Str α : Type} {S : StringLayer Text Str} (same : S.SameBytes)
    (value : Value) (decode : Text → Except LumencastError α) :
    (encodeStrWithEnvelope S value >>= fun s => decode (S.asBytes s)) =
      encodeWithEnvelope S.toTextLayer value >>= decode := by
  unfold encodeStrWithEnvelope encodeWithEnvelope
  cases injectVersion value with
  | error e => rfl
  | ok v => exact congrArg decode (same v)

/-- Every legal frame of both directions whose document is read back is decoded as it was
encoded, from bytes and from strings. -/
theorem codec_round_trip {Str : Type} (S : StringLayer Text Str) (same : S.SameBytes) :
    (∀ frame : ServerFrame, frame.Legal → S.ReadsBack frame.document →
      encodeServer S.toTextLayer frame >>= decodeServer S.toTextLayer = .ok frame ∧
        encodeServerStr S frame >>= decodeServerStr S = .ok frame) ∧
      ∀ frame : ClientFrame, frame.Legal → S.ReadsBack frame.document →
        encodeClient S.toTextLayer frame >>= decodeClient S.toTextLayer = .ok frame ∧
          encodeClientStr S frame >>= decodeClientStr S = .ok frame := by
  refine ⟨fun frame legal back => ?_, fun frame legal back => ?_⟩
  · have bytes := ServerFrame.decode_encode legal back
    exact ⟨bytes, (encodeStr_bind same frame.toValue _).trans bytes⟩
  · have bytes := ClientFrame.decode_encode legal back
    exact ⟨bytes, (encodeStr_bind same frame.toValue _).trans bytes⟩

/-- The layer whose texts and strings are the JSON values themselves. -/
private def values : StringLayer Value Value where
  toText := id
  fromText := .ok
  showError := fun _ => "invalid"
  showFloat := fun _ => "0.0"
  toStr := id
  asBytes := id

private def fade : Patch :=
  { path := ⟨"players.0.score"⟩, value := .array [.null, .bool true]
    transition := some (.tween (some 250) (some .easeInOut)) }

private def fadeDelta : ServerFrame :=
  .delta { seq := 7, patches := [fade], cause := some { source := "adapter" } }

private def fadeInput : ClientFrame := .input { patches := [fade], clientMsgId := some "m" }

theorem codec_round_trip_fade :
    encodeServerStr values fadeDelta >>= decodeServerStr values = .ok fadeDelta ∧
      encodeClient values.toTextLayer fadeInput >>= decodeClient values.toTextLayer =
        .ok fadeInput := by
  have legal : fade.Legal := ⟨by decide, by decide, by decide⟩
  have round := codec_round_trip values fun _ => rfl
  have delta : fadeDelta.Legal := fun p hp => List.mem_singleton.mp hp ▸ legal
  have input : fadeInput.Legal := ⟨by simp, fun p hp => List.mem_singleton.mp hp ▸ legal⟩
  exact ⟨(round.1 fadeDelta delta rfl).2, (round.2 fadeInput input rfl).1⟩

end Lumencast.Protocol
