import Lumencast.Protocol.RoundTrip
import Lumencast.Server.Connection
import Lumencast.Server.SceneOp

/-!
# Scenes registered from bundles

A bundle brings two things that registration does not check or pass on. Its
defaults are seeded into the store without the validation of an emission, so a
snapshot is legal exactly when the defaults are. Its `operator_inputs` never reach
the declared-inputs table of the scene, so an identity that can write at all can
write undeclared paths.
-/

namespace Lumencast.Server

open Foundation Protocol

variable {Text : Type}

/-! ## Snapshots -/

/-- The entries that a registration seeds. -/
def Registration.defaults : Registration → List (String × Value)
  | plain .. => []
  | bundle b => b.defaults.toList

theorem Registration.scene_store (P : Platform Text) (reg : Registration) :
    (reg.scene P).store = overwrite ∅ reg.defaults := by
  cases reg <;> rfl

/-- A path/value entry that LSDP admits. -/
def LegalEntry (e : String × Value) : Prop := LeafPath.Valid e.1 ∧ e.2.isObject = false

instance (e : String × Value) : Decidable (LegalEntry e) :=
  inferInstanceAs (Decidable (_ ∧ _))

/-- The snapshot of a scene has legal entries, and a client that reads its document back
decodes it as it was sent. -/
structure LegalSnapshot (T : TextLayer Text) (s : Scene Text) : Prop where
  paths : ∀ e ∈ s.snapshotState.toList, LeafPath.parse e.1 = .ok ⟨e.1⟩
  leaves : ∀ e ∈ s.snapshotState.toList, e.2.isObject = false
  decodes : ∀ seq clock, T.ReadsBack (Connection.snapshotFrame s seq clock).document →
    encodeServer T (Connection.snapshotFrame s seq clock) >>= decodeServer T =
      .ok (Connection.snapshotFrame s seq clock)

theorem legalSnapshot_iff {T : TextLayer Text} {s : Scene Text} :
    LegalSnapshot T s ↔ ∀ e ∈ s.store.toList, LegalEntry e := by
  constructor
  · intro legal e he
    exact ⟨(LeafPath.parse_eq_ok.mp (legal.paths e he)).1, legal.leaves e he⟩
  · intro legal
    exact ⟨fun e he => LeafPath.parse_of_valid (legal e he).1, fun e he => (legal e he).2,
      fun seq clock => ServerFrame.decode_encode fun e he => (legal e he).2⟩

theorem mem_toList_of_getElem? {m : State} {k : String} {v : Value} (h : m[k]? = some v) :
    (k, v) ∈ m.toList :=
  Std.ExtTreeMap.mem_toList_iff_getElem?_eq_some.mpr h

/-- Writing legal entries keeps a store legal. -/
theorem legal_overwrite {m : State} {pairs : List (String × Value)}
    (legal : ∀ e ∈ m.toList, LegalEntry e) (written : ∀ w ∈ pairs, LegalEntry w) :
    ∀ e ∈ (overwrite m pairs).toList, LegalEntry e := by
  rintro ⟨k, v⟩ member
  rcases mem_or_getElem?_of_overwrite
    (Std.ExtTreeMap.mem_toList_iff_getElem?_eq_some.mp member) with new | old
  · exact written _ new
  · exact legal _ (mem_toList_of_getElem? old)

theorem legal_applyAll {T : TextLayer Text} {s : Scene Text}
    (legal : ∀ e ∈ s.store.toList, LegalEntry e) (ops : List (SceneOp Text)) :
    ∀ e ∈ (s.applyAll T ops).store.toList, LegalEntry e := by
  induction ops generalizing s with
  | nil => exact legal
  | cons op ops ih =>
      obtain ⟨pairs, written, store⟩ := s.store_apply (T := T) op
      refine ih (s := s.apply T op) ?_
      rw [store]
      exact legal_overwrite legal written

/-- An emission writes its pairs; it is refused as a whole if one of them is illegal. -/
theorem Scene.apply_emit {T : TextLayer Text} (s : Scene Text) (pairs : List (String × Value)) :
    let s' := s.apply T (.emit pairs none)
    s'.id = s.id ∧ s'.version = s.version ∧
      s'.store = overwrite s.store (if ∀ pair ∈ pairs, LegalEntry pair then pairs else []) := by
  intro s'
  have applied : s' = (s.emitWithCause pairs none).toOption.getD s := rfl
  rw [applied, Scene.emitWithCause]
  cases parsed : parsePairs pairs with
  | error e =>
      have illegal : ¬∀ pair ∈ pairs, LegalEntry pair := fun legal => by
        rw [parsePairs_of_legal legal] at parsed
        cases parsed
      rw [if_neg illegal]
      exact ⟨rfl, rfl, rfl⟩
  | ok patches =>
      have written := writes_of_parsePairs parsed
      have legal : ∀ pair ∈ pairs, LegalEntry pair := written ▸ legal_of_parsePairs parsed
      rw [if_pos legal, ← written]
      cases patches <;> exact ⟨rfl, rfl, rfl⟩

/-- For every registration: all snapshots of the scene are legal, after any sequence of
operations, exactly when the defaults of its bundle are. -/
theorem snapshots_legal_iff (P : Platform Text) (reg : Registration) :
    (∀ ops, LegalSnapshot P.toTextLayer ((reg.scene P).applyAll P.toTextLayer ops)) ↔
      ∀ e ∈ reg.defaults, LegalEntry e := by
  simp only [legalSnapshot_iff]
  constructor
  · intro legal e he
    have kept : e ∈ (reg.scene P).store.toList := by
      rw [reg.scene_store P]
      cases reg with
      | plain => cases he
      | bundle b => rwa [Registration.defaults, overwrite_toList]
    exact legal [] e kept
  · intro legal
    refine legal_applyAll ?_
    rw [reg.scene_store P]
    exact legal_overwrite (by simp) legal

/-- A minimal bundle with the given further fields. -/
private def bundleText (more : List (String × Value)) : Value :=
  objectOf ([("lsml", .string "1.0"), ("scene_id", .string "studio"),
    ("scene_version", .string placeholderHash), ("layout", .object [("kind", .string "text")])] ++
      more)

theorem snapshots_legal_iff_lamp :
    ∃ b, Bundle.parse valuePlatform (bundleText [("defaults", .object [("lamp", .bool true)])]) =
        .ok b ∧ b.defaults.toList = [("lamp", .bool true)] ∧
      LegalSnapshot valuePlatform.toTextLayer ((Registration.bundle b).scene valuePlatform) := by
  have parses : (Bundle.parse valuePlatform
      (bundleText [("defaults", .object [("lamp", .bool true)])])).toOption.any (fun b =>
        b.defaults.toList = [("lamp", .bool true)]) = true := by
    decide
  obtain ⟨b, parsed, defaults⟩ := exists_ok_of_any parses
  have legal : ∀ e ∈ (Registration.bundle b).defaults, LegalEntry e := by
    rw [Registration.defaults, defaults]
    decide
  exact ⟨b, parsed, defaults,
    (snapshots_legal_iff valuePlatform (.bundle b)).mpr legal []⟩

/-- An object among the defaults passes the parser, and the client refuses the first
snapshot of the scene. -/
theorem not_legalSnapshot_of_objectDefault :
    ∃ b, Bundle.parse valuePlatform (bundleText [("defaults", .object [("lamp", .object [])])]) =
        .ok b ∧
      (let s := (Registration.bundle b).scene valuePlatform
       let T := valuePlatform.toTextLayer
       (∃ e ∈ s.snapshotState.toList, e.2.isObject = true) ∧
        ¬LegalSnapshot T s ∧
        (encodeServer T (Connection.snapshotFrame s 1 ⟨0, 0, 0⟩) >>= decodeServer T).toOption =
          none) := by
  have parses : (Bundle.parse valuePlatform
      (bundleText [("defaults", .object [("lamp", .object [])])])).toOption.any (fun b =>
        (∃ e ∈ ((Registration.bundle b).scene valuePlatform).snapshotState.toList,
          e.2.isObject = true) ∧
        (encodeServer valuePlatform.toTextLayer (Connection.snapshotFrame
          ((Registration.bundle b).scene valuePlatform) 1 ⟨0, 0, 0⟩) >>=
            decodeServer valuePlatform.toTextLayer).toOption = none) = true := by
    decide
  obtain ⟨b, parsed, object, refused⟩ := exists_ok_of_any parses
  refine ⟨b, parsed, object, fun legal => ?_, refused⟩
  obtain ⟨e, member, isObject⟩ := object
  rw [legal.leaves e member] at isObject
  cases isObject

/-! ## Declared inputs -/

/-- A constraint of a row, by its name. -/
def constraintOf (op : OperatorInput) (name : String) : Option Value :=
  (op.constraints.bind Value.asObject).bind (·.lookup name)

/-- The lists of allowed values of a row: its own one, and the one among its constraints. -/
def allowedValues (op : OperatorInput) : List (List Value) :=
  [op.values, constraintOf op "values"].filterMap (·.bind Value.asArray)

/-- The value has the type of the row and meets its constraints. What a pattern matches is a
parameter. -/
structure Conforms (fits : String → String → Bool) (op : OperatorInput) (v : Value) : Prop where
  kind : ∀ kind ∈ InputType.wireNames.lookup op.kind, kind.admits v = true
  maxLength : ∀ s ∈ v.asStr, ∀ max ∈ (constraintOf op "maxLength").bind Value.asU64,
    s.length ≤ max
  pattern : ∀ s ∈ v.asStr, ∀ pattern ∈ (constraintOf op "pattern").bind Value.asStr,
    fits pattern s = true
  min : ∀ n ∈ v.asF64, ∀ min ∈ (constraintOf op "min").bind Value.asF64, min ≤ n
  max : ∀ n ∈ v.asF64, ∀ max ∈ (constraintOf op "max").bind Value.asF64, n ≤ max
  values : op.kind = "enum" → ∀ allowed ∈ allowedValues op, v ∈ allowed

/-- The row declares the patch, and lets the role write it. -/
structure Declares (fits : String → String → Bool) (op : OperatorInput) (role : Role)
    (p : Patch) : Prop where
  path : op.path = p.path.str
  conforms : Conforms fits op p.value
  writableBy : op.writableBy = [] ∨ role.display ∈ op.writableBy

section Decide

variable (fits : String → String → Bool) (op : OperatorInput)

instance (v : Value) : Decidable (Conforms fits op v) :=
  decidable_of_iff
    ((∀ kind ∈ InputType.wireNames.lookup op.kind, kind.admits v = true) ∧
      (∀ s ∈ v.asStr, ∀ max ∈ (constraintOf op "maxLength").bind Value.asU64, s.length ≤ max) ∧
      (∀ s ∈ v.asStr, ∀ pattern ∈ (constraintOf op "pattern").bind Value.asStr,
        fits pattern s = true) ∧
      (∀ n ∈ v.asF64, ∀ min ∈ (constraintOf op "min").bind Value.asF64, min ≤ n) ∧
      (∀ n ∈ v.asF64, ∀ max ∈ (constraintOf op "max").bind Value.asF64, n ≤ max) ∧
      (op.kind = "enum" → ∀ allowed ∈ allowedValues op, v ∈ allowed))
    ⟨fun ⟨kind, maxLength, pattern, min, max, values⟩ =>
        ⟨kind, maxLength, pattern, min, max, values⟩,
      fun ⟨kind, maxLength, pattern, min, max, values⟩ =>
        ⟨kind, maxLength, pattern, min, max, values⟩⟩

instance (role : Role) (p : Patch) : Decidable (Declares fits op role p) :=
  decidable_of_iff (op.path = p.path.str ∧ Conforms fits op p.value ∧
      (op.writableBy = [] ∨ role.display ∈ op.writableBy))
    ⟨fun ⟨path, conforms, writableBy⟩ => ⟨path, conforms, writableBy⟩,
      fun ⟨path, conforms, writableBy⟩ => ⟨path, conforms, writableBy⟩⟩

end Decide

/-- If the frame changes the store, the rows declare all patches of its input. -/
def EnforcesInputs (T : TextLayer Text) (fits : String → String → Bool)
    (inputs : List OperatorInput) (s : Scene Text) (identity : Identity) (rate : RateBucket)
    (now : Nat) (text : Text) : Prop :=
  (s.apply T (.frame identity rate now text)).store ≠ s.store →
    ∀ input, decodeClient T text = .ok (.input input) →
      ∀ p ∈ input.patches, ∃ op ∈ inputs, Declares fits op identity.role p

/-- A scene without declarations stores every input that the limiter and the scope of the
identity let through. -/
theorem Scene.store_apply_input {T : TextLayer Text} {s : Scene Text}
    (permissive : s.declaredInputs = none) {text : Text} {input : Input}
    (decoded : decodeClient T text = .ok (.input input)) (identity : Identity)
    (rate : RateBucket) (now : Nat) :
    (s.apply T (.frame identity rate now text)).store =
      if (rate.allow now).1 = true ∧
          ∀ p ∈ input.patches, identity.role.canWrite p.path identity.paths = true
        then overwrite s.store (writes input.patches) else s.store := by
  obtain ⟨nonempty, legal⟩ := decodeClient_input decoded
  split
  · next gates =>
    obtain ⟨allowed, writable⟩ := gates
    have leaf : ∀ p ∈ input.patches, p.value.isObject = false := fun p hp => by
      simpa [Patch.isValueLegal] using (legal p hp).2
    have parsed : parsePairs (writes input.patches) = .ok _ := parsePairs_of_legal (by
      intro w member
      obtain ⟨p, hp, rfl⟩ := List.mem_map.mp member
      exact ⟨(legal p hp).1, leaf p hp⟩)
    have admitted : ∀ p ∈ input.patches, Admitted T s identity p := fun p hp =>
      { writable := writable p hp
        declared := by simp [checkInputPatch, permissive]
        legal := leaf p hp }
    obtain ⟨first, head⟩ := List.exists_mem_of_ne_nil _ nonempty
    have role := Role.canInput_of_ne_viewer (Role.ne_viewer_of_canWrite (writable first head))
    have handled := handleTextFrame_eq_publish.mpr ⟨input, decoded, handleInput_eq_publish.mpr
      ⟨role, nonempty, Prod.ext allowed rfl, admitted, parsed, rfl⟩⟩
    rw [apply, handled, Verdict.apply, publish_store, writes_of_parsePairs parsed]
  · next gates =>
    rcases s.apply_frame (T := T) identity rate now text with
      same | ⟨input', patches, cause, decoded', _, allowed, admitted, _, _⟩
    · rw [same]
    · cases decoded.symm.trans decoded'
      exact absurd ⟨allowed, fun p hp => (admitted p hp).writable⟩ gates

/-- One frame respects the declarations exactly when a gate turns it away, when it writes
nothing new, or when all of its patches happen to be declared. -/
theorem enforcesInputs_iff {T : TextLayer Text} {s : Scene Text}
    (permissive : s.declaredInputs = none) {text : Text} {input : Input}
    (decoded : decodeClient T text = .ok (.input input)) (fits : String → String → Bool)
    (inputs : List OperatorInput) (identity : Identity) (rate : RateBucket) (now : Nat) :
    EnforcesInputs T fits inputs s identity rate now text ↔
      (rate.allow now).1 = false ∨
      (∃ p ∈ input.patches, identity.role.canWrite p.path identity.paths = false) ∨
      overwrite s.store (writes input.patches) = s.store ∨
      ∀ p ∈ input.patches, ∃ op ∈ inputs, Declares fits op identity.role p := by
  unfold EnforcesInputs
  rw [Scene.store_apply_input permissive decoded]
  simp only [decoded, Except.ok.injEq, ClientFrame.input.injEq, forall_eq']
  cases (rate.allow now).1 with
  | false => simp
  | true =>
      by_cases refused : ∃ p ∈ input.patches, identity.role.canWrite p.path identity.paths = false
      · have : ¬∀ p ∈ input.patches, identity.role.canWrite p.path identity.paths = true := by
          obtain ⟨p, hp, h⟩ := refused
          intro writable
          rw [writable p hp] at h
          cases h
        simp [this, refused]
      · have : ∀ p ∈ input.patches, identity.role.canWrite p.path identity.paths = true := by
          simpa using refused
        rw [if_pos ⟨rfl, this⟩]
        simp only [refused, reduceCtorEq, false_or]
        exact imp_iff_not_or.trans (or_congr_left Decidable.not_not)

theorem Registration.declaredInputs_applyAll (P : Platform Text) (reg : Registration)
    (ops : List (SceneOp Text)) :
    ((reg.scene P).applyAll P.toTextLayer ops).declaredInputs = none := by
  rw [Scene.declaredInputs_applyAll]
  cases reg <;> rfl

/-- An input frame that writes `true` to a valid path can be sent. -/
def SendsSwitches (T : TextLayer Text) : Prop :=
  ∀ path, LeafPath.Valid path → ∃ text, decodeClient T text =
    .ok (.input { patches := [{ path := ⟨path⟩, value := .bool true }] })

/-- For every bundle and every identity, and whatever patterns match: a single frame respects
the declarations exactly under the conditions of `enforcesInputs_iff`, and all frames do
exactly when the identity can write nothing. -/
theorem inputs_enforced_iff (P : Platform Text) (sends : SendsSwitches P.toTextLayer)
    (fits : String → String → Bool) (b : Bundle) (identity : Identity) :
    let T := P.toTextLayer
    let after ops := ((Registration.bundle b).scene P).applyAll T ops
    (∀ ops rate now text input, decodeClient T text = .ok (.input input) →
      (EnforcesInputs T fits b.operatorInputs (after ops) identity rate now text ↔
        (rate.allow now).1 = false ∨
        (∃ p ∈ input.patches, identity.role.canWrite p.path identity.paths = false) ∨
        overwrite (after ops).store (writes input.patches) = (after ops).store ∨
        ∀ p ∈ input.patches, ∃ op ∈ b.operatorInputs, Declares fits op identity.role p)) ∧
    ((∀ ops rate now text,
        EnforcesInputs T fits b.operatorInputs (after ops) identity rate now text) ↔
      ∀ path, LeafPath.Valid path → identity.role.canWrite ⟨path⟩ identity.paths = false) := by
  intro T after
  have permissive : ∀ ops, (after ops).declaredInputs = none :=
    (Registration.bundle b).declaredInputs_applyAll P
  refine ⟨fun ops rate now text input decoded =>
    enforcesInputs_iff (permissive ops) decoded .., ?_, ?_⟩
  · intro enforced path valid
    by_contra writable
    rw [Bool.not_eq_false] at writable
    -- A path below it that neither the defaults nor the rows mention.
    obtain ⟨n, fresh⟩ := LeafPath.exists_child_notMem path
      ((after []).store.toList.map Prod.fst ++ b.operatorInputs.map OperatorInput.path)
    let p : Patch := { path := ⟨LeafPath.child path n⟩, value := .bool true }
    obtain ⟨text, decoded⟩ := sends (LeafPath.child path n) (LeafPath.valid_child valid n)
    have stored : ((after []).apply T (.frame identity (RateBucket.new 0 0) 0 text)).store =
        overwrite (after []).store [p.write] := by
      rw [Scene.store_apply_input (permissive []) decoded, if_pos]
      · rfl
      · exact ⟨rfl, by simpa [p] using Role.canWrite_child n writable⟩
    have changed : ((after []).apply T (.frame identity (RateBucket.new 0 0) 0 text)).store ≠
        (after []).store := by
      intro same
      have held : (after []).store[p.path.str]? = some p.value := by
        rw [← same, stored, getElem?_overwrite]
        simp [lastWrite, Patch.write]
      refine fresh (List.mem_append_left _ (List.mem_map.mpr ⟨_, mem_toList_of_getElem? held, rfl⟩))
    obtain ⟨op, row, declares⟩ :=
      enforced [] (RateBucket.new 0 0) 0 text changed _ decoded p (List.mem_singleton.mpr rfl)
    exact fresh (List.mem_append_right _ (List.mem_map.mpr ⟨op, row, declares.path⟩))
  · intro nothing ops rate now text changed input decoded
    obtain ⟨nonempty, legal⟩ := decodeClient_input decoded
    obtain ⟨p, hp⟩ := List.exists_mem_of_ne_nil _ nonempty
    refine absurd ?_ changed
    rw [Scene.store_apply_input (permissive ops) decoded, if_neg]
    rintro ⟨_, writable⟩
    have := writable p hp
    rw [nothing p.path.str (legal p hp).1] at this
    cases this

/-- Two declared inputs, a lamp and a theme. -/
private def inputRows : List (String × Value) :=
  [("operator_inputs", .array
    [.object [("label", .string "Lamp"), ("path", .string "__inputs.lamp"),
      ("type", .string "boolean"), ("writable_by", .array [.string "operator"])],
    .object [("label", .string "Theme"), ("path", .string "__inputs.theme"),
      ("type", .string "enum"), ("values", .array [.string "dark", .string "light"])]])]

private def inputPatch (path : String) (value : Value) : Patch := { path := ⟨path⟩, value }

private def inputFrame (path : String) (value : Value) : Value :=
  .object [("patches", .array [(inputPatch path value).toValue]), ("type", .string "input"),
    ("v", .number (.posInt 1))]

private def rowsOperator : Identity := { subject := "", role := .operator }

private theorem valuePlatform_sendsSwitches : SendsSwitches valuePlatform.toTextLayer :=
  fun path valid => by
    have legal : ClientFrame.Legal (.input { patches := [inputPatch path (.bool true)] }) :=
      ⟨by simp, by simpa using ⟨valid, rfl, nofun⟩⟩
    obtain ⟨text, _, decoded⟩ :=
      bind_eq_ok.mp (ClientFrame.decode_encode (T := valuePlatform.toTextLayer) legal rfl)
    exact ⟨text, decoded⟩

/-- The lamp is switched as declared, a theme that is not in the list is stored, and a viewer
changes nothing. -/
theorem inputs_enforced_iff_rows :
    ∃ b, Bundle.parse valuePlatform (bundleText inputRows) = .ok b ∧ b.operatorInputs.length = 2 ∧
      (let T := valuePlatform.toTextLayer
       let s := (Registration.bundle b).scene valuePlatform
       let enforced := EnforcesInputs T (fun _ _ => true) b.operatorInputs
       enforced s rowsOperator (RateBucket.new 0 0) 0 (inputFrame "__inputs.lamp" (.bool true)) ∧
        ¬enforced s rowsOperator (RateBucket.new 0 0) 0
          (inputFrame "__inputs.theme" (.string "purple")) ∧
        ∀ ops rate now text,
          enforced (s.applyAll T ops) { rowsOperator with role := .viewer } rate now text) := by
  have parses : (Bundle.parse valuePlatform (bundleText inputRows)).toOption.any (fun b =>
      b.operatorInputs.length = 2 ∧
        (∃ op ∈ b.operatorInputs, Declares (fun _ _ => true) op .operator
          (inputPatch "__inputs.lamp" (.bool true))) ∧
        (∀ op ∈ b.operatorInputs, ¬Declares (fun _ _ => true) op .operator
          (inputPatch "__inputs.theme" (.string "purple"))) ∧
        overwrite ((Registration.bundle b).scene valuePlatform).store
            [("__inputs.theme", .string "purple")] ≠
          ((Registration.bundle b).scene valuePlatform).store) = true := by
    decide
  obtain ⟨b, parsed, rows, declared, undeclared, new⟩ := exists_ok_of_any parses
  have lampDecoded : decodeClient valuePlatform.toTextLayer
      (inputFrame "__inputs.lamp" (.bool true)) =
        .ok (.input { patches := [inputPatch "__inputs.lamp" (.bool true)] }) := by
    decide
  have themeDecoded : decodeClient valuePlatform.toTextLayer
      (inputFrame "__inputs.theme" (.string "purple")) =
        .ok (.input { patches := [inputPatch "__inputs.theme" (.string "purple")] }) := by
    decide
  have operator := (inputs_enforced_iff valuePlatform valuePlatform_sendsSwitches
    (fun _ _ => true) b rowsOperator).1 []
  have viewer := inputs_enforced_iff valuePlatform valuePlatform_sendsSwitches
    (fun _ _ => true) b { rowsOperator with role := .viewer }
  refine ⟨b, parsed, rows, (operator _ _ _ _ lampDecoded).mpr (.inr (.inr (.inr ?_))),
    fun enforced => ?_, viewer.2.mpr fun path _ => rfl⟩
  · intro p member
    rw [List.mem_singleton.mp member]
    exact declared
  · rcases (operator _ _ _ _ themeDecoded).mp enforced with
      limited | ⟨p, member, refused⟩ | same | all
    · cases limited
    · rw [List.mem_singleton.mp member] at refused
      cases refused
    · exact new same
    · obtain ⟨op, row, declares⟩ := all _ (List.mem_singleton.mpr rfl)
      exact undeclared op row declares

/-- An operator writes a path that the bundle does not declare. -/
theorem not_enforced_of_undeclaredPath :
    ∃ b, Bundle.parse valuePlatform (bundleText inputRows) = .ok b ∧ b.operatorInputs ≠ [] ∧
      ∀ fits, ¬EnforcesInputs valuePlatform.toTextLayer fits b.operatorInputs
        ((Registration.bundle b).scene valuePlatform) rowsOperator (RateBucket.new 0 0) 0
        (inputFrame "__inputs.rogue" (.bool true)) := by
  have parses : (Bundle.parse valuePlatform (bundleText inputRows)).toOption.any (fun b =>
      b.operatorInputs ≠ [] ∧ (∀ op ∈ b.operatorInputs, op.path ≠ "__inputs.rogue") ∧
        (((Registration.bundle b).scene valuePlatform).apply valuePlatform.toTextLayer (.frame
          rowsOperator (RateBucket.new 0 0) 0 (inputFrame "__inputs.rogue" (.bool true)))).store ≠
            ((Registration.bundle b).scene valuePlatform).store) = true := by
    decide
  obtain ⟨b, parsed, nonempty, undeclared, changed⟩ := exists_ok_of_any parses
  have decoded : decodeClient valuePlatform.toTextLayer
      (inputFrame "__inputs.rogue" (.bool true)) =
        .ok (.input { patches := [inputPatch "__inputs.rogue" (.bool true)] }) := by
    decide
  refine ⟨b, parsed, nonempty, fun fits enforced => ?_⟩
  obtain ⟨op, row, declares⟩ := enforced changed _ decoded _ (List.mem_singleton.mpr rfl)
  exact undeclared op row declares.path

end Lumencast.Server
