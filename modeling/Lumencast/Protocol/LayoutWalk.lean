import Lumencast.Foundation.Traversal
import Lumencast.Protocol.Bundle

/-!
# The visual tree of a bundle

Two walkers go over a layout with an explicit stack: the validation of a bundle, and the
check of its capture nodes alone. Both push the elements of an array under `children` and
the value under `template`, so both see exactly the reachable node positions, and what they
accept is said without them: `CoreLegal` and `CaptureRule`.

A value that is no object is skipped by both. The validation therefore accepts a layout
whose node positions hold other values.
-/

namespace Lumencast.Protocol

open Foundation

/-- The node positions of a layout. -/
inductive Reachable (root : Value) : Value → Prop
  | root : Reachable root root
  | child {obj : Fields} {items : List Value} {v : Value} (node : Reachable root (.object obj))
      (children : obj.lookup "children" = some (.array items)) (member : v ∈ items) :
      Reachable root v
  | template {obj : Fields} {v : Value} (node : Reachable root (.object obj))
      (template : obj.lookup "template" = some v) : Reachable root v

/-- What a walker pushes for a popped value. -/
def nextNodes : Value → List Value
  | .object obj => (childNodes obj).reverse
  | _ => []

/-- What a walker checks at a popped value. -/
def checkNode (check : Fields → Except BundleError Unit) : Value → Except BundleError Unit
  | .object obj => check obj
  | _ => .ok ()

theorem asStr_eq_some {v : Value} {s : String} : v.asStr = some s ↔ v = .string s := by
  cases v <;> simp [Value.asStr]

/-- A field that is read as a string. -/
theorem bind_asStr_eq_some {obj : Fields} {name s : String} :
    (obj.lookup name).bind Value.asStr = some s ↔ obj.lookup name = some (.string s) := by
  rw [Option.bind_eq_some_iff]
  constructor
  · rintro ⟨v, found, read⟩
    rw [found, asStr_eq_some.mp read]
  · exact fun found => ⟨_, found, rfl⟩

theorem mem_childNodes {obj : Fields} {v : Value} :
    v ∈ childNodes obj ↔
      (∃ items, obj.lookup "children" = some (.array items) ∧ v ∈ items) ∨
        obj.lookup "template" = some v := by
  rw [childNodes, List.mem_append, Option.mem_toList]
  refine or_congr_left ?_
  cases found : obj.lookup "children" with
  | none => simp
  | some w =>
      cases w with
      | array items => simp [Value.asArray]
      | null | bool | number | string | object => simp [Value.asArray]

/-- The walkers reach exactly the node positions. -/
theorem reaches_iff {root v : Value} : Reaches nextNodes root v ↔ Reachable root v := by
  constructor
  · intro reaches
    induction reaches with
    | refl => exact .root
    | @tail a b _ pushed ih =>
        cases a with
        | object obj =>
            rcases mem_childNodes.mp (List.mem_reverse.mp pushed) with
              ⟨items, children, member⟩ | template
            · exact .child ih children member
            · exact .template ih template
        | null | bool | number | string | array => cases pushed
  · intro reachable
    have push {obj : Fields} {w : Value} (member : w ∈ childNodes obj) :
        w ∈ nextNodes (.object obj) := List.mem_reverse.mpr member
    induction reachable with
    | root => exact .refl
    | child _ children member ih =>
        exact ih.tail (push (mem_childNodes.mpr (.inl ⟨_, children, member⟩)))
    | template _ template ih => exact ih.tail (push (mem_childNodes.mpr (.inr template)))

/-! ## Termination -/

theorem itemsCount_eq_sum (items : List Value) :
    itemsCount items = (items.map Value.nodeCount).sum := by
  induction items with
  | nil => rfl
  | cons v items ih => rw [itemsCount, ih, List.map_cons, List.sum_cons]

/-- Two fields of an object have no node in common. -/
theorem lookups_le {k l : String} (apart : k ≠ l) (fields : Fields) :
    (fields.lookup k).elim 0 Value.nodeCount + (fields.lookup l).elim 0 Value.nodeCount ≤
      fieldsCount fields := by
  induction fields with
  | nil => simp [fieldsCount]
  | cons field fields ih =>
      obtain ⟨name, v⟩ := field
      rw [fieldsCount, List.lookup_cons, List.lookup_cons]
      by_cases first : k = name
      · have second : (l == name) = false := beq_false_of_ne (first ▸ apart.symm)
        simp only [beq_iff_eq.mpr first, second, Option.elim_some]
        omega
      · by_cases second : l = name
        · simp only [beq_false_of_ne first, beq_iff_eq.mpr second, Option.elim_some]
          omega
        · simp only [beq_false_of_ne first, beq_false_of_ne second]
          omega

/-- What is pushed for a node weighs less than the node. -/
theorem nextNodes_lighter (v : Value) :
    ((nextNodes v).map Value.nodeCount).sum < Value.nodeCount v := by
  cases v with
  | object obj =>
      have apart := lookups_le (k := "children") (l := "template") (by decide) obj
      have children : ((((obj.lookup "children").bind Value.asArray).getD []).map
          Value.nodeCount).sum ≤ (obj.lookup "children").elim 0 Value.nodeCount := by
        cases obj.lookup "children" with
        | none => simp
        | some w =>
            cases w with
            | array items =>
                rw [Option.elim_some, Value.nodeCount, itemsCount_eq_sum]
                exact Nat.le_succ _
            | null | bool | number | string | object => simp [Value.asArray]
      have template : ((obj.lookup "template").toList.map Value.nodeCount).sum =
          (obj.lookup "template").elim 0 Value.nodeCount := by
        cases obj.lookup "template" <;> simp
      rw [nextNodes, List.map_reverse, List.sum_reverse, childNodes, List.map_append,
        List.sum_append, template, Value.nodeCount]
      omega
  | null | bool | number | string | array => simp [nextNodes, Value.nodeCount]

/-- Where the bounded loop ends, the walker ends with its result. -/
theorem walk_of_traverse {check : Fields → Except BundleError Unit} {n : Nat} {stack : List Value}
    {result : Except BundleError Unit}
    (h : traverseStack (checkNode check) nextNodes n stack = some result) :
    walk check n stack = result := by
  induction n generalizing stack with
  | zero =>
      cases stack with
      | nil =>
          cases h
          rfl
      | cons node stack => cases h
  | succ n ih =>
      cases stack with
      | nil =>
          cases h
          rfl
      | cons node stack =>
          cases node with
          | object obj =>
              rw [traverseStack, checkNode] at h
              rw [walk]
              cases checked : check obj with
              | ok u =>
                  rw [checked] at h
                  exact ih h
              | error e =>
                  rw [checked] at h
                  cases h
                  rfl
          | null | bool | number | string | array => exact ih h

/-- A walker terminates, and its result is that of the loop. -/
theorem walk_traverses (check : Fields → Except BundleError Unit) (root : Value) :
    Traverses (checkNode check) nextNodes [root] (walk check (Value.nodeCount root) [root]) := by
  have bound : ([root].map Value.nodeCount).sum ≤ Value.nodeCount root := by simp
  obtain ⟨result, h⟩ : ∃ result,
      traverseStack (checkNode check) nextNodes (Value.nodeCount root) [root] = some result :=
    exists_traverse nextNodes_lighter bound
  rw [walk_of_traverse h]
  exact .of_traverse h

/-- A walker succeeds exactly when every object at a node position passes its check. -/
theorem walk_eq_ok {check : Fields → Except BundleError Unit} {root : Value} :
    walk check (Value.nodeCount root) [root] = .ok () ↔
      ∀ obj, Reachable root (.object obj) → check obj = .ok () := by
  rw [(walk_traverses check root).ok_iff]
  constructor
  · intro passes obj reachable
    exact passes root List.mem_cons_self _ (reaches_iff.mpr reachable)
  · intro passes a member v reaches
    obtain rfl := List.mem_singleton.mp member
    cases v with
    | object obj => exact passes obj (reaches_iff.mp reaches)
    | null | bool | number | string | array => rfl

/-! ## What a node has to be -/

/-- A logical alias, `^[a-z][a-z0-9-]{0,63}$`. -/
def DeviceRef (s : String) : Prop :=
  ∃ first rest, s.toList = first :: rest ∧ ('a' ≤ first ∧ first ≤ 'z') ∧ rest.length ≤ 63 ∧
    ∀ c ∈ rest, ('a' ≤ c ∧ c ≤ 'z') ∨ ('0' ≤ c ∧ c ≤ '9') ∨ c = '-'

/-- The rule of a capture node. -/
def CaptureLegal (obj : Fields) : Prop :=
  ∃ sourceKind deviceRef, obj.lookup "x-zab.sourceKind" = some (.string sourceKind) ∧
    (sourceKind ∈ captureVisualKinds ∨ sourceKind ∈ captureAudioKinds) ∧
    obj.lookup "x-zab.deviceRef" = some (.string deviceRef) ∧ DeviceRef deviceRef ∧
    (sourceKind ∈ captureVisualKinds → (obj.lookup "size").isSome)

/-- The node declares a kind of the catalogue, or is a capture node. -/
def KindLegal (obj : Fields) : Prop :=
  ∃ kind, obj.lookup "kind" = some (.string kind) ∧
    (kind = zabCaptureKind ∨ kind ∈ primitiveKinds)

/-- The node animates nothing but what may be animated. -/
def AnimateLegal (obj : Fields) : Prop :=
  ∀ animate, obj.lookup "animate" = some (.object animate) → ∀ f ∈ animate, f.1 ∈ animateAllowed

/-- The structural rules of the catalogue. -/
@[mk_iff]
structure KindRule (kind : String) (obj : Fields) : Prop where
  image : kind = "image" → (obj.lookup "alt").isSome
  stack : kind = "stack" → obj.lookup "direction" = some (.string "horizontal") ∨
    obj.lookup "direction" = some (.string "vertical")
  grid : kind = "grid" → (obj.lookup "columns").isSome
  shape : kind = "shape" → obj.lookup "geometry" = some (.string "rect") ∨
    obj.lookup "geometry" = some (.string "circle") ∨
    obj.lookup "geometry" = some (.string "path") ∧ (obj.lookup "pathData").isSome
  media : kind = "media" → obj.lookup "kind_hint" = some (.string "video") ∨
    obj.lookup "kind_hint" = some (.string "audio")
  repeat_ : kind = "repeat" → (obj.lookup "scope").isSome ∧ (obj.lookup "template").isSome

/-- The rules of the core catalogue, for one node. -/
structure CoreLegal (obj : Fields) : Prop where
  kind : KindLegal obj
  animate : AnimateLegal obj
  rule : ∀ kind, obj.lookup "kind" = some (.string kind) → KindRule kind obj

/-- If the node is a capture node, it keeps the rule of capture nodes. -/
def CaptureRule (obj : Fields) : Prop :=
  obj.lookup "kind" = some (.string zabCaptureKind) → CaptureLegal obj

theorem isAscii_of_alias {c : Char}
    (h : ('a' ≤ c ∧ c ≤ 'z') ∨ ('0' ≤ c ∧ c ≤ '9') ∨ c = '-') : c.toNat < 128 := by
  rcases h with ⟨_, h⟩ | ⟨_, h⟩ | rfl
  · exact Nat.lt_of_le_of_lt h (by decide)
  · exact Nat.lt_of_le_of_lt h (by decide)
  · decide

/-- For the characters of an alias, the limit on bytes is one on characters. -/
theorem isLogicalDeviceRef_iff {s : String} : isLogicalDeviceRef s = true ↔ DeviceRef s := by
  have decoded : isLogicalDeviceRef s = true ↔ (bytes s.toList).length ≤ 64 ∧
      ∃ first rest, s.toList = first :: rest ∧ ('a' ≤ first ∧ first ≤ 'z') ∧
        ∀ c ∈ rest, ('a' ≤ c ∧ c ≤ 'z') ∨ ('0' ≤ c ∧ c ≤ '9') ∨ c = '-' := by
    unfold isLogicalDeviceRef
    split
    · next long => exact iff_of_false (by decide) fun h => absurd h.1 (Nat.not_le.mpr long)
    · next short =>
      rw [and_iff_right (Nat.le_of_not_lt short)]
      cases s.toList with
      | nil => simp
      | cons first rest => simp [or_assoc]
  have sized {first : Char} {rest : List Char} (initial : 'a' ≤ first ∧ first ≤ 'z')
      (others : ∀ c ∈ rest, ('a' ≤ c ∧ c ≤ 'z') ∨ ('0' ≤ c ∧ c ≤ '9') ∨ c = '-') :
      (bytes (first :: rest)).length = rest.length + 1 := by
    rw [length_bytes_of_ascii, List.length_cons]
    refine List.forall_mem_cons.mpr ⟨isAscii_of_alias (.inl initial), fun c member => ?_⟩
    exact isAscii_of_alias (others c member)
  rw [decoded]
  constructor
  · rintro ⟨short, first, rest, split, initial, others⟩
    refine ⟨first, rest, split, initial, ?_, others⟩
    rw [split, sized initial others] at short
    omega
  · rintro ⟨first, rest, split, initial, short, others⟩
    refine ⟨?_, first, rest, split, initial, others⟩
    rw [split, sized initial others]
    omega

theorem checkZabCapture_eq_ok {obj : Fields} :
    checkZabCapture obj = .ok () ↔ CaptureLegal obj := by
  unfold checkZabCapture CaptureLegal
  simp only [← bind_asStr_eq_some]
  cases (obj.lookup "x-zab.sourceKind").bind Value.asStr with
  | none => simp
  | some sourceKind =>
      simp only [ite_error_eq_ok]
      cases (obj.lookup "x-zab.deviceRef").bind Value.asStr with
      | none => simp
      | some deviceRef =>
          have known : ¬(!captureVisualKinds.contains sourceKind &&
              !captureAudioKinds.contains sourceKind) = true ↔
                sourceKind ∈ captureVisualKinds ∨ sourceKind ∈ captureAudioKinds := by
            simp [or_iff_not_imp_left]
          have sized : ¬(captureVisualKinds.contains sourceKind && (obj.lookup "size").isNone) =
              true ↔ (sourceKind ∈ captureVisualKinds → (obj.lookup "size").isSome = true) := by
            rw [Bool.and_eq_true, List.contains_iff_mem, not_and, Option.isNone_iff_eq_none,
              ← ne_eq, Option.ne_none_iff_isSome]
          have named : ¬(!isLogicalDeviceRef deviceRef) = true ↔ DeviceRef deviceRef := by
            rw [← isLogicalDeviceRef_iff, Bool.not_eq_true', Bool.not_eq_false]
          rw [ite_error_eq_ok, ite_error_eq_ok, known, sized, named, and_iff_left rfl]
          constructor
          · rintro ⟨known, named, sized⟩
            exact ⟨_, _, rfl, known, rfl, named, sized⟩
          · rintro ⟨_, _, ⟨⟩, known, ⟨⟩, named, sized⟩
            exact ⟨known, named, sized⟩

theorem checkAnimateKeys_eq_ok {keys : List String} :
    checkAnimateKeys keys = .ok () ↔ ∀ key ∈ keys, key ∈ animateAllowed := by
  induction keys with
  | nil => simp [checkAnimateKeys]
  | cons key keys ih =>
      rw [checkAnimateKeys, ite_error_eq_ok, ih, List.forall_mem_cons]
      simp

theorem animateLegal_iff {obj : Fields} :
    checkAnimateKeys ((((obj.lookup "animate").bind Value.asObject).getD []).map Prod.fst) =
      .ok () ↔ AnimateLegal obj := by
  rw [checkAnimateKeys_eq_ok, List.forall_mem_map, AnimateLegal]
  cases found : obj.lookup "animate" with
  | none => simp
  | some v =>
      cases v with
      | object animate => simp
      | null | bool | number | string | array => simp [Value.asObject]

theorem checkPerKind_eq_ok {kind : String} {obj : Fields} :
    checkPerKind kind obj = .ok () ↔ KindRule kind obj := by
  rw [kindRule_iff]
  simp only [← bind_asStr_eq_some]
  unfold checkPerKind
  split
  · simp
  · split <;> simp_all
  · simp
  · split <;> simp_all
  · split <;> simp_all
  · simp only [ite_error_eq_ok]
    simp
  · simp_all

/-- The rules of a node whose kind is known. -/
theorem legal_iff {obj : Fields} {kind : String} (found : obj.lookup "kind" = some (.string kind)) :
    CoreLegal obj ∧ CaptureRule obj ↔
      ((kind = zabCaptureKind ∨ kind ∈ primitiveKinds) ∧
        (kind = zabCaptureKind → CaptureLegal obj)) ∧ AnimateLegal obj ∧ KindRule kind obj := by
  have unique {other : String} (h : obj.lookup "kind" = some (.string other)) : other = kind := by
    rw [found] at h
    cases h
    rfl
  constructor
  · rintro ⟨⟨⟨other, declared, known⟩, animate, rule⟩, capture⟩
    refine ⟨⟨unique declared ▸ known, fun same => capture (same ▸ found)⟩, animate, rule _ found⟩
  · rintro ⟨⟨known, capture⟩, animate, rule⟩
    refine ⟨⟨⟨kind, found, known⟩, animate, fun other declared => ?_⟩, fun declared => ?_⟩
    · exact unique declared ▸ rule
    · exact capture (unique declared).symm

theorem checkLayoutNode_eq_ok {obj : Fields} :
    checkLayoutNode obj = .ok () ↔ CoreLegal obj ∧ CaptureRule obj := by
  unfold checkLayoutNode
  cases declared : (obj.lookup "kind").bind Value.asStr with
  | none =>
      refine iff_of_false (fun h => ?_) fun legal => ?_
      · simp at h
      · obtain ⟨kind, found, _⟩ := legal.1.kind
        rw [bind_asStr_eq_some.mpr found] at declared
        cases declared
  | some kind =>
      rw [legal_iff (bind_asStr_eq_some.mp declared), ← animateLegal_iff, ← checkPerKind_eq_ok,
        ← checkZabCapture_eq_ok]
      by_cases capture : kind = zabCaptureKind
      · simp [capture, check_bind_eq_ok]
      · by_cases known : kind ∈ primitiveKinds
        · simp [capture, known, check_bind_eq_ok]
        · simp [capture, known, check_bind_eq_ok]

theorem checkCaptureNode_eq_ok {obj : Fields} :
    checkCaptureNode obj = .ok () ↔ CaptureRule obj := by
  unfold checkCaptureNode CaptureRule
  rw [← bind_asStr_eq_some]
  split
  · next capture => simp [capture, checkZabCapture_eq_ok]
  · next other => simp [other]

theorem checkLayoutInvariants_eq_ok {root : Value} :
    checkLayoutInvariants root = .ok () ↔
      ∀ obj, Reachable root (.object obj) → CoreLegal obj ∧ CaptureRule obj := by
  rw [checkLayoutInvariants, walk_eq_ok]
  exact forall₂_congr fun obj _ => checkLayoutNode_eq_ok

theorem checkZabCaptureNodes_eq_ok {root : Value} :
    checkZabCaptureNodes root = .ok () ↔ ∀ obj, Reachable root (.object obj) → CaptureRule obj := by
  rw [checkZabCaptureNodes, walk_eq_ok]
  exact forall₂_congr fun obj _ => checkCaptureNode_eq_ok

/-- The check of capture nodes terminates and decides their rule. What the validation of
layouts accepts it accepts, and where it accepts more a reachable node breaks a rule of the
core catalogue. -/
theorem capture_walk_exact (root : Value) :
    Traverses (checkNode checkCaptureNode) nextNodes [root] (checkZabCaptureNodes root) ∧
      (checkZabCaptureNodes root = .ok () ↔
        ∀ obj, Reachable root (.object obj) → obj.lookup "kind" = some (.string zabCaptureKind) →
          CaptureLegal obj) ∧
      (checkLayoutInvariants root = .ok () → checkZabCaptureNodes root = .ok ()) ∧
      (checkZabCaptureNodes root = .ok () → checkLayoutInvariants root ≠ .ok () →
        ∃ obj, Reachable root (.object obj) ∧ ¬CoreLegal obj) := by
  refine ⟨walk_traverses checkCaptureNode root, checkZabCaptureNodes_eq_ok, ?_, ?_⟩
  · intro valid
    rw [checkLayoutInvariants_eq_ok] at valid
    exact checkZabCaptureNodes_eq_ok.mpr fun obj reachable => (valid obj reachable).2
  · intro captures fails
    rw [checkZabCaptureNodes_eq_ok] at captures
    by_contra core
    refine fails (checkLayoutInvariants_eq_ok.mpr fun obj reachable => ⟨?_, captures obj reachable⟩)
    by_contra broken
    exact core ⟨obj, reachable, broken⟩

theorem Bundle.layout_of_validate {b : Bundle} (valid : b.validate = .ok ()) :
    checkLayoutInvariants b.layout = .ok () := by
  unfold Bundle.validate at valid
  cases major : parseMajor b.lsml with
  | none => simp [major] at valid
  | some n =>
      simp only [major] at valid
      split at valid
      · obtain ⟨_, raised, _⟩ := bind_eq_ok.mp valid
        exact absurd raised throw_ne_ok
      · split at valid
        · obtain ⟨_, raised, _⟩ := bind_eq_ok.mp valid
          exact absurd raised throw_ne_ok
        · exact (check_bind_eq_ok.mp valid).2

/-- In the layout of a valid bundle every node position holds a node that keeps the rules of
its kind, exactly if every node position holds an object. -/
theorem validated_tree_iff {b : Bundle} (valid : b.validate = .ok ()) :
    (∀ v, Reachable b.layout v → ∃ obj, v = .object obj ∧ CoreLegal obj ∧ CaptureRule obj) ↔
      ∀ v, Reachable b.layout v → v.isObject = true := by
  have checked := checkLayoutInvariants_eq_ok.mp (Bundle.layout_of_validate valid)
  constructor
  · intro legal v reachable
    obtain ⟨obj, rfl, _⟩ := legal v reachable
    rfl
  · intro objects v reachable
    have object := objects v reachable
    cases v with
    | object obj => exact ⟨obj, rfl, checked obj reachable⟩
    | null | bool | number | string | array => cases object

private def bundleOf (layout : Value) : Bundle :=
  { lsml := "1.0", sceneId := "hall", sceneVersion := "1", layout }

private def label : Value := .object [("kind", .string "text")]

private def column : Fields :=
  [("children", .array [label]), ("direction", .string "vertical"), ("kind", .string "stack")]

theorem reachable_column {v : Value} (reachable : Reachable (bundleOf (.object column)).layout v) :
    v = .object column ∨ v = label := by
  induction reachable with
  | root => exact .inl rfl
  | child _ children member ih =>
      rcases ih with ih | ih
      · cases ih
        cases children
        exact .inr (List.mem_singleton.mp member)
      · cases ih
        cases children
  | template _ template ih =>
      rcases ih with ih | ih
      · cases ih
        cases template
      · cases ih
        cases template

theorem validated_tree_iff_column :
    (bundleOf (.object column)).validate = .ok () ∧
      ∀ v, Reachable (bundleOf (.object column)).layout v →
        ∃ obj, v = .object obj ∧ CoreLegal obj ∧ CaptureRule obj := by
  have valid : (bundleOf (.object column)).validate = .ok () := by decide
  refine ⟨valid, (validated_tree_iff valid).mpr fun v reachable => ?_⟩
  rcases reachable_column reachable with rfl | rfl <;> rfl

/-- A bundle whose layout is a string is valid. -/
theorem validated_tree_not_covered :
    (bundleOf (.string "stage")).validate = .ok () ∧
      ¬∀ v, Reachable (bundleOf (.string "stage")).layout v →
        ∃ obj, v = .object obj ∧ CoreLegal obj ∧ CaptureRule obj := by
  refine ⟨by decide, fun legal => ?_⟩
  obtain ⟨obj, same, _⟩ := legal _ .root
  cases same

end Lumencast.Protocol
