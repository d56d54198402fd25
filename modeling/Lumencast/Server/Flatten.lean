import Lumencast.Foundation.Leaves
import Lumencast.Protocol.PathGrammar
import Lumencast.Server.Scene

/-!
# Flattening of documents

`flattenIntoPairs` walks a document and emits each leaf at the path that its keys give
beneath a root. For a root that is not empty these are the leaves of the document, in
order, so that nothing is lost but the objects without a leaf. Beneath a legal root, and
with keys that are segments of a path, every pair is one that a scene accepts.

The objects of the program are key-sorted maps, so its documents are those with `isSorted`.
-/

namespace Lumencast.Server

open Foundation Protocol

variable {Text : Type}

mutual

def walk : String → Value → List (String × Value) → List (String × Value)
  | path, .object fields, out => walkFields path fields out
  | path, leaf, out => if path.isEmpty then out else out ++ [(path, leaf)]

/-- The loop over the fields of an object. -/
def walkFields : String → List (String × Value) → List (String × Value) → List (String × Value)
  | _, [], out => out
  | path, (k, v) :: rest, out =>
      let next := if path.isEmpty then k else path ++ "." ++ k
      walkFields path rest (walk next v out)

end

/-- Flatten `value` rooted at `root` into pairs. -/
def flattenIntoPairs (root : String) (value : Value) : List (String × Value) := walk root value []

/-- The path of keys beneath a root. -/
def pathOf (root : String) (keys : List String) : String :=
  keys.foldl (fun path k => path ++ "." ++ k) root

/-- The keys of a path beneath the root. -/
def keysOf (root path : String) : Option (List String) :=
  if path = root then some []
  else (stripPrefix (root.toList ++ ['.']) path.toList).map fun rest =>
    (rest.splitOn '.').map String.ofList

/-- The document that pairs give beneath the root. -/
def nestUnder (root : String) (pairs : List (String × Value)) : Option Value :=
  nest (pairs.filterMap fun pair => (keysOf root pair.1).map fun keys => (keys, pair.2))

/-! ## Paths of keys -/

theorem toList_pathOf_cons (root k : String) (keys : List String) :
    (pathOf root (k :: keys)).toList =
      root.toList ++ '.' :: joinSegments ((k :: keys).map String.toList) := by
  induction keys generalizing root k with
  | nil => simp [pathOf, joinSegments]
  | cons l keys ih =>
      have step : pathOf root (k :: l :: keys) = pathOf (root ++ "." ++ k) (l :: keys) := rfl
      rw [step, ih, List.map_cons, List.map_cons, List.map_cons, joinSegments_cons_cons]
      simp

/-- Keys without dots are read back from the path. -/
theorem keysOf_pathOf (root : String) {keys : List String}
    (undotted : ∀ k ∈ keys, '.' ∉ k.toList) : keysOf root (pathOf root keys) = some keys := by
  cases keys with
  | nil => exact if_pos rfl
  | cons k keys =>
      have whole : (pathOf root (k :: keys)).toList =
          (root.toList ++ ['.']) ++ joinSegments ((k :: keys).map String.toList) := by
        rw [toList_pathOf_cons, List.append_assoc, List.singleton_append]
      have apart : pathOf root (k :: keys) ≠ root := by
        intro same
        have length := congrArg List.length whole
        rw [same, List.length_append, List.length_append, List.length_singleton] at length
        omega
      have parts : ∀ part ∈ (k :: keys).map String.toList, '.' ∉ part := by
        intro part member
        obtain ⟨key, among, rfl⟩ := List.mem_map.mp member
        exact undotted key among
      rw [keysOf, if_neg apart, stripPrefix_eq_some.mpr whole, Option.map_some, joinSegments,
        List.splitOn_intercalate '.' parts (List.cons_ne_nil _ _), List.map_map]
      simp

theorem pathOf_injective (root : String) {keys others : List String}
    (undotted : ∀ k ∈ keys, '.' ∉ k.toList) (undotted' : ∀ k ∈ others, '.' ∉ k.toList)
    (same : pathOf root keys = pathOf root others) : keys = others := by
  have read := keysOf_pathOf root undotted
  rw [same, keysOf_pathOf root undotted'] at read
  exact (Option.some.inj read).symm

/-! ## The walk -/

/-- A leaf with its path beneath the root. -/
def pairOf (root : String) (leaf : List String × Value) : String × Value :=
  (pathOf root leaf.1, leaf.2)

theorem walk_leaf {v : Value} (plain : v.isObject = false) {path : String} (nonempty : path ≠ "")
    (out : List (String × Value)) : walk path v out = out ++ [(path, v)] := by
  have there : ¬path.isEmpty = true := String.isEmpty_iff.not.mpr nonempty
  cases v with
  | object fields => cases plain
  | _ =>
      rw [walk, if_neg there]
      simp

theorem walk_object (path : String) (fields out : List (String × Value)) :
    walk path (.object fields) out = walkFields path fields out := by rw [walk]

/-- Beneath a root the walk emits the leaves in order. -/
theorem walk_eq (v : Value) {path : String} (nonempty : path ≠ "") (out : List (String × Value)) :
    walk path v out = out ++ v.leaves.map (pairOf path) := by
  induction v using Value.object_induction generalizing path out with
  | leaf v plain =>
      rw [walk_leaf plain nonempty, Value.leaves_of_leaf plain]
      rfl
  | object fields ih =>
      rw [walk_object, Value.leaves_object]
      induction fields generalizing out with
      | nil => rw [walkFields, fieldLeaves, List.map_nil, List.append_nil]
      | cons f fields ih' =>
          obtain ⟨k, v⟩ := f
          obtain ⟨here, later⟩ := List.forall_mem_cons.mp ih
          have there : ¬path.isEmpty = true := String.isEmpty_iff.not.mpr nonempty
          have deeper : path ++ "." ++ k ≠ "" := by
            intro empty
            have chars := congrArg String.toList empty
            simp at chars
          rw [walkFields, if_neg there, here deeper, ih' later, fieldLeaves, List.map_append,
            List.map_map, List.append_assoc]
          rfl

theorem flattenIntoPairs_eq {root : String} (nonempty : root ≠ "") (v : Value) :
    flattenIntoPairs root v = v.leaves.map (pairOf root) := walk_eq v nonempty []

section

variable {v : Value} {root : String} (undotted : ∀ key, HasKey v key → '.' ∉ key.toList)

include undotted

theorem undotted_of_leafAt {keys : List String} {leaf : Value} (h : LeafAt v keys leaf) :
    ∀ k ∈ keys, '.' ∉ k.toList := fun k member => undotted k (h.hasKey k member)

/-- The paths of the pairs are distinct because those of the leaves are. -/
theorem nodup_flattenIntoPairs (sorted : v.isSorted = true) (nonempty : root ≠ "") :
    ((flattenIntoPairs root v).map Prod.fst).Nodup := by
  have paths : (flattenIntoPairs root v).map Prod.fst =
      (v.leaves.map Prod.fst).map (pathOf root) := by
    rw [flattenIntoPairs_eq nonempty, List.map_map, List.map_map]
    rfl
  rw [paths]
  refine (nodup_leaves sorted).map_on fun keys member others among same => ?_
  obtain ⟨pair, here, rfl⟩ := List.mem_map.mp member
  obtain ⟨other, there, rfl⟩ := List.mem_map.mp among
  exact pathOf_injective root (undotted_of_leafAt undotted (mem_leaves.mp here))
    (undotted_of_leafAt undotted (mem_leaves.mp there)) same

/-- Nesting the pairs nests the leaves. -/
theorem nestUnder_flattenIntoPairs (nonempty : root ≠ "") :
    nestUnder root (flattenIntoPairs root v) = nest v.leaves := by
  have read : ∀ leaf ∈ v.leaves, (keysOf root (pairOf root leaf).1).map
      (fun keys => (keys, (pairOf root leaf).2)) = some leaf := by
    intro leaf member
    rw [pairOf, keysOf_pathOf root (undotted_of_leafAt undotted (mem_leaves.mp member)),
      Option.map_some]
  rw [nestUnder, flattenIntoPairs_eq nonempty, List.filterMap_map]
  exact congrArg nest ((List.filterMap_congr read).trans List.filterMap_some)

end

/-! ## Emission of the pairs -/

/-- A path stays legal beneath a segment. -/
theorem valid_append_segment {path key : String} (valid : LeafPath.Valid path)
    (segment : IsSegment key.toList) (undotted : '.' ∉ key.toList) :
    LeafPath.Valid (path ++ "." ++ key) := by
  have split : segments (path ++ "." ++ key) = segments path ++ [key.toList] := by
    have chars : (path ++ "." ++ key).toList = path.toList ++ '.' :: key.toList := by simp
    rw [segments, chars, List.splitOn_append_cons_self, List.splitOn_eq_singleton undotted]
    rfl
  have grammar := LeafPath.valid_iff.mp valid
  refine LeafPath.valid_iff.mpr ⟨fun empty => ?_, ?_, fun tail first => ?_⟩
  · have chars := congrArg String.toList empty
    simp at chars
  · rw [split]
    refine List.forall_mem_append.mpr ⟨grammar.segments, ?_⟩
    exact List.forall_mem_singleton.mpr segment
  · obtain ⟨head, rest, whole⟩ := exists_segments_cons path
    refine grammar.reserved tail ?_
    rw [split, whole, List.cons_append] at first
    rw [whole]
    exact first

theorem notMem_dot_of_token {key : List Char} (token : IsIdent key ∨ IsNumeral key) :
    '.' ∉ key := by
  intro dot
  rcases token with ⟨first, rest, rfl, initial, others⟩ | ⟨_, digits⟩
  · rcases List.mem_cons.mp dot with rfl | later
    · exact absurd initial (by decide)
    · exact absurd (others '.' later) (by decide)
  · exact absurd (digits '.' dot) (by decide)

theorem valid_pathOf {root : String} {keys : List String} (valid : LeafPath.Valid root)
    (tokens : ∀ key ∈ keys, IsIdent key.toList ∨ IsNumeral key.toList) :
    LeafPath.Valid (pathOf root keys) := by
  induction keys generalizing root with
  | nil => exact valid
  | cons key keys ih =>
      obtain ⟨token, tokens⟩ := List.forall_mem_cons.mp tokens
      have segment : IsSegment key.toList := token.elim .ident .numeral
      exact ih (valid_append_segment valid segment (notMem_dot_of_token token)) tokens

/-- Beneath a legal root the scene accepts all pairs. -/
theorem emit_flattenIntoPairs {v : Value} {root : String} (valid : LeafPath.Valid root)
    (tokens : ∀ key, HasKey v key → IsIdent key.toList ∨ IsNumeral key.toList)
    (s : Scene Text) : ∃ patches, writes patches = flattenIntoPairs root v ∧
      s.emit (flattenIntoPairs root v) =
        .ok (if patches.isEmpty then s else s.publish patches none) := by
  have nonempty : root ≠ "" := (LeafPath.valid_iff.mp valid).nonempty
  have legal : ∀ pair ∈ flattenIntoPairs root v,
      LeafPath.Valid pair.1 ∧ pair.2.isObject = false := by
    intro pair member
    rw [flattenIntoPairs_eq nonempty] at member
    obtain ⟨leaf, among, rfl⟩ := List.mem_map.mp member
    have leafAt := mem_leaves.mp among
    have legal := valid_pathOf valid fun key above => tokens key (leafAt.hasKey key above)
    exact ⟨legal, leafAt.isObject⟩
  have parsed := parsePairs_of_legal legal
  refine ⟨_, writes_of_parsePairs parsed, ?_⟩
  rw [Scene.emit, Scene.emitWithCause, parsed]
  rfl

/-- Beneath a root that is not empty the pairs are the leaves of the document, each once, at
the paths of their keys, which are distinct. Nested under the root they give the document
without the objects in which there is no leaf. A scene accepts the list if the root is a
legal path and every key an identifier or an index. -/
theorem flattenIntoPairs_exact {v : Value} {root : String} (sorted : v.isSorted = true)
    (undotted : ∀ key, HasKey v key → '.' ∉ key.toList) (nonempty : root ≠ "") :
    (∀ keys leaf, LeafAt v keys leaf →
        (flattenIntoPairs root v).count (pathOf root keys, leaf) = 1) ∧
      (∀ pair ∈ flattenIntoPairs root v,
        ∃! keys, LeafAt v keys pair.2 ∧ pair.1 = pathOf root keys) ∧
      ((flattenIntoPairs root v).map Prod.fst).Nodup ∧
      nestUnder root (flattenIntoPairs root v) = v.prune ∧
      (flattenIntoPairs root v = [] ↔ v.prune = none) ∧
      (LeafPath.Valid root →
        (∀ key, HasKey v key → IsIdent key.toList ∨ IsNumeral key.toList) →
        ∀ s : Scene Text, ∃ patches, writes patches = flattenIntoPairs root v ∧
          s.emit (flattenIntoPairs root v) =
            .ok (if patches.isEmpty then s else s.publish patches none)) := by
  have distinct := nodup_flattenIntoPairs undotted sorted nonempty
  have pairs := flattenIntoPairs_eq nonempty v
  refine ⟨fun keys leaf leafAt => ?_, fun pair member => ?_, distinct, ?_, ?_,
    fun valid tokens s => emit_flattenIntoPairs valid tokens s⟩
  · refine List.count_eq_one_of_mem distinct.of_map ?_
    rw [pairs]
    exact List.mem_map.mpr ⟨(keys, leaf), mem_leaves.mpr leafAt, rfl⟩
  · rw [pairs] at member
    obtain ⟨leaf, among, rfl⟩ := List.mem_map.mp member
    have leafAt := mem_leaves.mp among
    refine ⟨leaf.1, ⟨leafAt, rfl⟩, fun keys other => ?_⟩
    exact pathOf_injective root (undotted_of_leafAt undotted other.1)
      (undotted_of_leafAt undotted leafAt) other.2.symm
  · rw [nestUnder_flattenIntoPairs undotted nonempty, nest_leaves sorted]
  · rw [pairs, List.map_eq_nil_iff, leaves_eq_nil_iff sorted]

/-- A document with one leaf and one empty object. -/
def minuteDocument : Value :=
  .object [("match", .object [("minute", .number (.posInt 42)), ("phase", .object [])])]

theorem flattenIntoPairs_exact_minute :
    nestUnder "game" (flattenIntoPairs "game" minuteDocument) =
        some (.object [("match", .object [("minute", .number (.posInt 42))])]) ∧
      ∀ s : Scene Unit, ∃ patches,
        writes patches = flattenIntoPairs "game" minuteDocument ∧
          s.emit (flattenIntoPairs "game" minuteDocument) =
            .ok (if patches.isEmpty then s else s.publish patches none) := by
  have keys : ∀ key, HasKey minuteDocument key → key ∈ ["match", "minute", "phase"] := by
    have scalar : ∀ key, ¬HasKey (.number (.posInt 42)) key := HasKey.not_of_leaf rfl
    simp [minuteDocument, HasKey.object, scalar]
  have tokens : ∀ key ∈ ["match", "minute", "phase"], IsIdent key.toList := by decide
  have undotted : ∀ key ∈ ["match", "minute", "phase"], '.' ∉ key.toList := by decide
  obtain ⟨_, _, _, nested, _, accepted⟩ := @flattenIntoPairs_exact Unit minuteDocument "game"
    (by decide) (fun key has => undotted key (keys key has)) (by decide)
  exact ⟨nested, accepted (by decide) fun key has => .inl (tokens key (keys key has))⟩

example : flattenIntoPairs "game" minuteDocument =
    [("game.match.minute", .number (.posInt 42))] := by decide

end Lumencast.Server
