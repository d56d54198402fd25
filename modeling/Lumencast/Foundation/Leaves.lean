import Lumencast.Foundation.Fields

/-!
# Leaves of a document

A leaf of a document is a value in it that is no object, reached through objects by a path
of keys; an array is a leaf with all that it holds. The leaves of a key-sorted document are
at distinct paths. Placed one after the other they give the document back, less the objects
in which there is no leaf.
-/

namespace Lumencast.Foundation

/-- The document has the leaf at the path of keys. -/
inductive LeafAt : Value → List String → Value → Prop
  | here {leaf : Value} (h : leaf.isObject = false) : LeafAt leaf [] leaf
  | field {fields : List (String × Value)} {k : String} {v : Value} {keys : List String}
      {leaf : Value} (member : (k, v) ∈ fields) (h : LeafAt v keys leaf) :
      LeafAt (.object fields) (k :: keys) leaf

/-- The document has the key, outside its arrays. -/
inductive HasKey : Value → String → Prop
  | here {fields : List (String × Value)} {k : String} {v : Value} (member : (k, v) ∈ fields) :
      HasKey (.object fields) k
  | field {fields : List (String × Value)} {k : String} {v : Value} {key : String}
      (member : (k, v) ∈ fields) (h : HasKey v key) : HasKey (.object fields) key

mutual

/-- The leaves with their paths, in the order of the fields. -/
def Value.leaves : Value → List (List String × Value)
  | .object fields => fieldLeaves fields
  | leaf => [([], leaf)]

def fieldLeaves : List (String × Value) → List (List String × Value)
  | [] => []
  | (k, v) :: rest => v.leaves.map (Prod.map (List.cons k) id) ++ fieldLeaves rest

end

/-- The object with the given fields, if there are any. -/
def objectOfKept : List (String × Value) → Option Value
  | [] => none
  | kept => some (.object kept)

mutual

/-- The document without the objects in which there is no leaf; `none` if nothing remains. -/
def Value.prune : Value → Option Value
  | .object fields => objectOfKept (pruneFields fields)
  | leaf => some leaf

def pruneFields : List (String × Value) → List (String × Value)
  | [] => []
  | (k, v) :: rest =>
      match v.prune with
      | none => pruneFields rest
      | some v => (k, v) :: pruneFields rest

end

/-- Put a leaf at a path. What stands in the way and is no object gives way. -/
def insertAt : List String → Value → Option Value → Value
  | [], leaf, _ => leaf
  | k :: keys, leaf, some (.object fields) =>
      .object (insertField k (insertAt keys leaf (fields.lookup k)) fields)
  | k :: keys, leaf, _ => .object [(k, insertAt keys leaf none)]

def place (tree : Option Value) (pair : List String × Value) : Option Value :=
  some (insertAt pair.1 pair.2 tree)

/-- The document that a list of leaves gives; `none` if there are none. -/
def nest (pairs : List (List String × Value)) : Option Value := pairs.foldl place none

namespace Value

/-- Induction through objects. -/
theorem object_induction {P : Value → Prop} (leaf : ∀ v, v.isObject = false → P v)
    (object : ∀ fields, (∀ f ∈ fields, P f.2) → P (.object fields)) : ∀ v, P v
  | .object fields => object fields fun f _ => object_induction leaf object f.2
  | .null | .bool _ | .number _ | .string _ | .array _ => leaf _ rfl
termination_by v => sizeOf v
decreasing_by
  have smaller := List.sizeOf_lt_of_mem ‹f ∈ fields›
  cases f
  simp only [Prod.mk.sizeOf_spec, Value.object.sizeOf_spec] at smaller ⊢
  omega

section

variable {v : Value} (leaf : v.isObject = false)

include leaf

theorem leaves_of_leaf : v.leaves = [([], v)] := by
  cases v with
  | object fields => cases leaf
  | _ => simp [leaves]

theorem prune_of_leaf : v.prune = some v := by
  cases v with
  | object fields => cases leaf
  | _ => rfl

end

theorem leaves_object (fields : List (String × Value)) :
    (object fields).leaves = fieldLeaves fields := by rw [leaves]

theorem prune_object (fields : List (String × Value)) :
    (object fields).prune = objectOfKept (pruneFields fields) := by rw [prune]

end Value

theorem LeafAt.of_leaf {v leaf : Value} {keys : List String} (plain : v.isObject = false) :
    LeafAt v keys leaf ↔ keys = [] ∧ leaf = v := by
  constructor
  · intro h
    cases h with
    | here => exact ⟨rfl, rfl⟩
    | field => cases plain
  · rintro ⟨rfl, rfl⟩
    exact .here plain

theorem LeafAt.object {fields : List (String × Value)} {keys : List String} {leaf : Value} :
    LeafAt (.object fields) keys leaf ↔
      ∃ f ∈ fields, ∃ rest, LeafAt f.2 rest leaf ∧ keys = f.1 :: rest := by
  constructor
  · intro h
    cases h with
    | here plain => cases plain
    | field member below => exact ⟨_, member, _, below, rfl⟩
  · rintro ⟨f, member, rest, below, rfl⟩
    exact .field member below

/-- A leaf is no object. -/
theorem LeafAt.isObject {v leaf : Value} {keys : List String} (h : LeafAt v keys leaf) :
    leaf.isObject = false := by
  induction h with
  | here plain => exact plain
  | field _ _ ih => exact ih

/-- The keys above a leaf are keys of the document. -/
theorem LeafAt.hasKey {v leaf : Value} {keys : List String} (h : LeafAt v keys leaf) :
    ∀ key ∈ keys, HasKey v key := by
  induction h with
  | here => exact List.forall_mem_nil _
  | field member _ ih =>
      exact List.forall_mem_cons.mpr ⟨.here member, fun key above => .field member (ih key above)⟩

theorem HasKey.object {fields : List (String × Value)} {key : String} :
    HasKey (.object fields) key ↔ ∃ f ∈ fields, key = f.1 ∨ HasKey f.2 key := by
  constructor
  · intro h
    cases h with
    | here member => exact ⟨_, member, .inl rfl⟩
    | field member below => exact ⟨_, member, .inr below⟩
  · rintro ⟨f, member, rfl | below⟩
    · exact .here member
    · exact .field member below

theorem HasKey.not_of_leaf {v : Value} (plain : v.isObject = false) (key : String) :
    ¬HasKey v key := by
  intro h
  cases h <;> cases plain

theorem mem_fieldLeaves {fields : List (String × Value)} {pair : List String × Value} :
    pair ∈ fieldLeaves fields ↔
      ∃ f ∈ fields, ∃ rest, (rest, pair.2) ∈ f.2.leaves ∧ pair.1 = f.1 :: rest := by
  induction fields with
  | nil => simp [fieldLeaves]
  | cons f fields ih =>
      rw [fieldLeaves, List.mem_append, ih, List.exists_mem_cons_iff]
      refine or_congr_left ?_
      constructor
      · intro member
        obtain ⟨⟨rest, leaf⟩, here, rfl⟩ := List.mem_map.mp member
        exact ⟨rest, here, rfl⟩
      · rintro ⟨rest, here, keys⟩
        exact List.mem_map.mpr ⟨_, here, Prod.ext keys.symm rfl⟩

/-- The list of leaves has all leaves. -/
theorem mem_leaves {v : Value} {pair : List String × Value} :
    pair ∈ v.leaves ↔ LeafAt v pair.1 pair.2 := by
  induction v using Value.object_induction generalizing pair with
  | leaf v plain =>
      rw [Value.leaves_of_leaf plain, List.mem_singleton, LeafAt.of_leaf plain, Prod.ext_iff]
  | object fields ih =>
      rw [Value.leaves_object, mem_fieldLeaves, LeafAt.object]
      refine exists_congr fun f => and_congr_right fun member => exists_congr fun rest => ?_
      rw [ih f member]

theorem isSorted_of_mem {fields : List (String × Value)}
    (sorted : (Value.object fields).isSorted = true) {f : String × Value} (member : f ∈ fields) :
    f.2.isSorted = true :=
  Value.isSorted_field sorted ((Value.keySorted_of_isSorted sorted).mem_iff_lookup.mp member)

theorem nodup_fieldLeaves {fields : List (String × Value)} (sorted : KeySorted fields)
    (each : ∀ f ∈ fields, (f.2.leaves.map Prod.fst).Nodup) :
    ((fieldLeaves fields).map Prod.fst).Nodup := by
  induction fields with
  | nil => exact List.nodup_nil
  | cons f fields ih =>
      obtain ⟨above, sorted⟩ := List.pairwise_cons.mp sorted
      obtain ⟨here, each⟩ := List.forall_mem_cons.mp each
      have paths : (f.2.leaves.map (Prod.map (List.cons f.1) id)).map Prod.fst =
          (f.2.leaves.map Prod.fst).map (List.cons f.1) := by
        rw [List.map_map, List.map_map]
        rfl
      rw [fieldLeaves, List.map_append, paths]
      refine List.Nodup.append (here.map List.cons_injective) (ih sorted each) ?_
      intro path first later
      obtain ⟨rest, _, rfl⟩ := List.mem_map.mp first
      obtain ⟨pair, member, same⟩ := List.mem_map.mp later
      obtain ⟨g, among, tail, _, keys⟩ := mem_fieldLeaves.mp member
      have below := above g among
      rw [(List.cons.inj (keys.symm.trans same)).1, Std.ReflOrd.compare_self] at below
      cases below

/-- The leaves of a key-sorted document are at distinct paths. -/
theorem nodup_leaves {v : Value} (sorted : v.isSorted = true) :
    (v.leaves.map Prod.fst).Nodup := by
  induction v using Value.object_induction with
  | leaf v plain =>
      rw [Value.leaves_of_leaf plain]
      exact List.nodup_singleton _
  | object fields ih =>
      rw [Value.leaves_object]
      exact nodup_fieldLeaves (Value.keySorted_of_isSorted sorted) fun f member =>
        ih f member (isSorted_of_mem sorted member)

/-! ## Placing the leaves -/

section

variable {fields : List (String × Value)} {k : String}

/-- A key above all others is inserted behind them. -/
theorem insertField_append (above : ∀ f ∈ fields, compare f.1 k = .lt) (v : Value)
    (rest : List (String × Value)) :
    insertField k v (fields ++ rest) = fields ++ insertField k v rest := by
  induction fields with
  | nil => rfl
  | cons f fields ih =>
      obtain ⟨here, above⟩ := List.forall_mem_cons.mp above
      have behind : compare k f.1 = .gt := by
        rw [Std.OrientedOrd.eq_swap, here]
        rfl
      rw [List.cons_append, insertField, behind, List.cons_append]
      exact congrArg _ (ih above)

theorem lookup_append_of_above (above : ∀ f ∈ fields, compare f.1 k = .lt)
    (rest : List (String × Value)) : (fields ++ rest).lookup k = rest.lookup k := by
  have absent : fields.lookup k = none := by
    rw [List.lookup_eq_none_iff]
    refine fun f member => bne_iff_ne.mpr fun same => ?_
    have below := above f member
    rw [← same, Std.ReflOrd.compare_self] at below
    cases below
  rw [List.lookup_append, absent, Option.none_or]

theorem place_objectOfKept (kept : List (String × Value)) (keys : List String) (leaf : Value) :
    place (objectOfKept kept) (k :: keys, leaf) =
      objectOfKept (insertField k (insertAt keys leaf (kept.lookup k)) kept) := by
  have shape : ∀ f rest, objectOfKept (f :: rest) = some (.object (f :: rest)) := fun _ _ => rfl
  cases kept with
  | nil => rfl
  | cons f kept =>
      obtain ⟨g, rest, eq⟩ : ∃ g rest, insertField k (insertAt keys leaf ((f :: kept).lookup k))
          (f :: kept) = g :: rest := by
        obtain ⟨l, w⟩ := f
        rw [insertField]
        split <;> exact ⟨_, _, rfl⟩
      rw [shape, eq, shape, place, insertAt, eq]

/-- The object in the making, with the tree of its last key behind the fields that are done. -/
def withField (kept : List (String × Value)) (k : String) (tree : Option Value) : Option Value :=
  objectOfKept (kept ++ (tree.map (Prod.mk k)).toList)

/-- Placing a leaf beneath the last key places it in the tree of that key. -/
theorem place_withField (above : ∀ f ∈ fields, compare f.1 k = .lt) (tree : Option Value)
    (pair : List String × Value) :
    place (withField fields k tree) (Prod.map (List.cons k) id pair) =
      withField fields k (place tree pair) := by
  have last : ∀ w, insertField k w (tree.map (Prod.mk k)).toList = [(k, w)] := by
    intro w
    cases tree with
    | none => rfl
    | some v =>
        rw [Option.map_some, Option.toList_some, insertField, Std.ReflOrd.compare_self]
  have found : (tree.map (Prod.mk k)).toList.lookup k = tree := by
    cases tree with
    | none => rfl
    | some v => rw [Option.map_some, Option.toList_some, lookup_cons_ite, if_pos rfl]
  have placed := place_objectOfKept (k := k) (fields ++ (tree.map (Prod.mk k)).toList) pair.1 pair.2
  rw [lookup_append_of_above above, insertField_append above, found, last] at placed
  exact placed

theorem foldl_place_withField (above : ∀ f ∈ fields, compare f.1 k = .lt) (tree : Option Value)
    (pairs : List (List String × Value)) :
    (pairs.map (Prod.map (List.cons k) id)).foldl place (withField fields k tree) =
      withField fields k (pairs.foldl place tree) := by
  induction pairs generalizing tree with
  | nil => rfl
  | cons pair pairs ih =>
      rw [List.map_cons, List.foldl_cons, place_withField above, ih, List.foldl_cons]

end

theorem pruneFields_cons (k : String) (v : Value) (fields : List (String × Value)) :
    pruneFields ((k, v) :: fields) =
      (v.prune.map (Prod.mk k)).toList ++ pruneFields fields := by
  rw [pruneFields]
  cases v.prune <;> rfl

theorem foldl_place_fieldLeaves {kept fields : List (String × Value)} (sorted : KeySorted fields)
    (above : ∀ f ∈ kept, ∀ g ∈ fields, compare f.1 g.1 = .lt)
    (each : ∀ f ∈ fields, nest f.2.leaves = f.2.prune) :
    (fieldLeaves fields).foldl place (objectOfKept kept) =
      objectOfKept (kept ++ pruneFields fields) := by
  induction fields generalizing kept with
  | nil => rw [fieldLeaves, pruneFields, List.append_nil, List.foldl_nil]
  | cons f fields ih =>
      obtain ⟨k, v⟩ := f
      obtain ⟨first, sorted⟩ := List.pairwise_cons.mp sorted
      obtain ⟨here, each⟩ := List.forall_mem_cons.mp each
      have start : objectOfKept kept = withField kept k none := by
        rw [withField, Option.map_none, Option.toList_none, List.append_nil]
      have done : v.leaves.foldl place none = v.prune := here
      rw [fieldLeaves, List.foldl_append, start,
        foldl_place_withField (fun f member => above f member _ List.mem_cons_self), done,
        withField, ih sorted ?_ each, pruneFields_cons, List.append_assoc]
      intro f member g among
      rcases List.mem_append.mp member with old | new
      · exact above f old g (List.mem_cons_of_mem _ among)
      · obtain ⟨w, _, rfl⟩ := Option.map_eq_some_iff.mp (Option.mem_toList.mp new)
        exact first g among

/-- The leaves of a key-sorted document give the document back, pruned. -/
theorem nest_leaves {v : Value} (sorted : v.isSorted = true) : nest v.leaves = v.prune := by
  induction v using Value.object_induction with
  | leaf v plain =>
      rw [Value.leaves_of_leaf plain, Value.prune_of_leaf plain]
      rfl
  | object fields ih =>
      have nested := @foldl_place_fieldLeaves [] fields (Value.keySorted_of_isSorted sorted)
        (fun f member => absurd member List.not_mem_nil) fun f member =>
          ih f member (isSorted_of_mem sorted member)
      rw [Value.leaves_object, Value.prune_object]
      exact nested

/-- Nothing remains exactly if there is no leaf. -/
theorem leaves_eq_nil_iff {v : Value} (sorted : v.isSorted = true) :
    v.leaves = [] ↔ v.prune = none := by
  rw [← nest_leaves sorted, nest]
  constructor
  · intro empty
    rw [empty]
    rfl
  · intro nothing
    rcases List.eq_nil_or_concat v.leaves with empty | ⟨front, pair, split⟩
    · exact empty
    · rw [split, List.concat_eq_append, List.foldl_append] at nothing
      cases nothing

end Lumencast.Foundation
