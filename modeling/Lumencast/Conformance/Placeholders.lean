import Mathlib.Data.List.Infix
import Mathlib.Data.List.Sort
import Lumencast.Foundation.Position
import Lumencast.Foundation.Replacement
import Lumencast.Foundation.Text

/-!
# Placeholders of a scenario

A scenario names tokens and bundle hashes by placeholders, which the player
replaces in the strings of a document before it uses it. A string that is a
placeholder as a whole is looked up; in any other string the placeholders are
replaced one after the other, the longest first.

One placeholder may be the beginning of another, and the passes see each other's
results. On the texts that `replaceStr_expands` is about they come to the same as
one simultaneous replacement of the longest placeholder at every dollar sign.
-/

namespace Lumencast.Conformance

open Foundation

/-- The replacements of the placeholders. -/
abbrev Substitutions := Std.ExtTreeMap String String

/-- Replace every occurrence of a word. The empty word stands around every letter. -/
def replaceWord (word replacement s : List Char) : List Char :=
  if word.isEmpty then replacement ++ s.flatMap fun c => c :: replacement
  else replaceAll word replacement s

namespace Substitutions

def new (tokens bundleHashes : Std.ExtTreeMap String String) : Substitutions :=
  overwrite tokens (bundleHashes.toList.map fun e => ("$BUNDLE." ++ e.1 ++ ".hash", e.2))

/-- The order in which the entries are replaced: the longest placeholder first, in bytes. -/
def Before (a b : String × String) : Prop :=
  (bytes b.1.toList).length ≤ (bytes a.1.toList).length

instance : DecidableRel Before := fun _ _ => inferInstanceAs (Decidable (_ ≤ _))

instance : Std.Total Before := ⟨fun _ _ => Nat.le_total ..⟩

instance : IsTrans (String × String) Before := ⟨fun _ _ _ first second => Nat.le_trans second first⟩

variable (subs : Substitutions)

def longestFirst : List (String × String) := subs.toList.insertionSort Before

/-- One pass of the loop. -/
def replaceOne (out : List Char) (entry : String × String) : List Char :=
  if entry.1.toList <:+: out then replaceWord entry.1.toList entry.2.toList out else out

def replaceStr (s : String) : String :=
  if '$' ∉ s.toList then s
  else
    match subs[s]? with
    | some replacement => replacement
    | none => String.ofList (subs.longestFirst.foldl replaceOne s.toList)

mutual

def apply : Value → Value
  | .string s => .string (replaceStr subs s)
  | .array items => .array (applyItems items)
  | .object fields => .object (applyFields fields)
  | other => other

def applyItems : List Value → List Value
  | [] => []
  | v :: items => apply v :: applyItems items

def applyFields : List (String × Value) → List (String × Value)
  | [] => []
  | (k, v) :: fields => (k, apply v) :: applyFields fields

end

/-! ## Positions -/

theorem getElem?_applyItems (items : List Value) (i : Nat) :
    (subs.applyItems items)[i]? = items[i]?.map subs.apply := by
  induction items generalizing i with
  | nil => rfl
  | cons v items ih =>
      cases i with
      | zero => rfl
      | succ i => exact ih i

theorem lookup_applyFields (fields : List (String × Value)) (k : String) :
    (subs.applyFields fields).lookup k = (fields.lookup k).map subs.apply := by
  induction fields with
  | nil => rfl
  | cons f fields ih =>
      obtain ⟨l, v⟩ := f
      rw [applyFields, lookup_cons_ite, lookup_cons_ite, ih]
      split <;> rfl

theorem child_apply (v : Value) (step : Step) :
    (subs.apply v).child step = (v.child step).map subs.apply := by
  cases v with
  | object fields =>
      cases step with
      | key k => exact lookup_applyFields ..
      | item i => rfl
  | array items =>
      cases step with
      | key k => rfl
      | item i => exact getElem?_applyItems ..
  | null | bool | number | string => cases step <;> rfl

theorem atPath_apply (v : Value) (path : List Step) :
    (subs.apply v).atPath path = (v.atPath path).map subs.apply := by
  induction path generalizing v with
  | nil => rfl
  | cons step path ih =>
      rw [Value.atPath_cons, Value.atPath_cons, child_apply]
      cases v.child step with
      | none => rfl
      | some w => exact ih w

/-! ## Strings -/

theorem mem_longestFirst {e : String × String} :
    e ∈ subs.longestFirst ↔ subs[e.1]? = some e.2 := by
  rw [longestFirst, List.mem_insertionSort]
  exact Std.ExtTreeMap.mem_toList_iff_getElem?_eq_some

/-- What becomes of a piece of a string that a dollar sign precedes. -/
inductive Expands (piece : List Char) : List Char → Prop
  /-- The longest placeholder that stands there is replaced. -/
  | replaced {k v : String} {rest : List Char} (known : subs[k]? = some v)
      (stands : '$' :: piece = k.toList ++ rest)
      (longest : ∀ k' v' : String, subs[k']? = some v' → k'.toList <+: '$' :: piece →
        k'.toList <+: k.toList) : Expands piece (v.toList ++ rest)
  | kept (absent : ∀ k v : String, subs[k]? = some v → ¬k.toList <+: '$' :: piece) :
      Expands piece ('$' :: piece)

/-- A piece that is a placeholder as a whole is looked up. -/
theorem Expands.eq_of_known {subs : Substitutions} {piece r : List Char}
    (expands : subs.Expands piece r) {k v : String} (word : k.toList = '$' :: piece)
    (known : subs[k]? = some v) : r = v.toList := by
  cases expands with
  | @replaced k' v' rest known' stands longest =>
      obtain ⟨more, whole⟩ := longest k v known (word ▸ List.prefix_rfl)
      rw [← word, ← whole, List.append_assoc] at stands
      have nothing : more ++ rest = [] := List.self_eq_append_right.mp stands
      obtain ⟨rfl, rfl⟩ := List.append_eq_nil_iff.mp nothing
      have same : k = k' := String.toList_injective (by simpa using whole)
      subst same
      rw [known] at known'
      cases known'
      exact List.append_nil _
  | kept absent => exact absurd (word ▸ List.prefix_rfl) (absent k v known)

/-- The placeholders begin with a dollar sign, and no replacement has one. -/
structure Marked : Prop where
  marked : ∀ k v : String, subs[k]? = some v → ∃ tail, k.toList = '$' :: tail
  clean : ∀ k v : String, subs[k]? = some v → '$' ∉ v.toList

/-- The entries as words behind a dollar sign. -/
def words : List (List Char × List Char) :=
  subs.longestFirst.map fun e => (e.1.toList.tail, e.2.toList)

variable {subs}

theorem Marked.cons_tail (marked : subs.Marked) {k v : String} (known : subs[k]? = some v) :
    k.toList = '$' :: k.toList.tail := by
  obtain ⟨tail, eq⟩ := marked.marked k v known
  rw [eq, List.tail_cons]

theorem Marked.mem_words (marked : subs.Marked) {w : List Char × List Char} :
    w ∈ subs.words ↔
      ∃ k v : String, subs[k]? = some v ∧ k.toList = '$' :: w.1 ∧ v.toList = w.2 := by
  rw [words, List.mem_map]
  constructor
  · rintro ⟨e, member, rfl⟩
    have known := subs.mem_longestFirst.mp member
    exact ⟨e.1, e.2, known, marked.cons_tail known, rfl⟩
  · rintro ⟨k, v, known, word, value⟩
    refine ⟨(k, v), subs.mem_longestFirst.mpr known, ?_⟩
    rw [word, List.tail_cons, value]

/-- The loop over marked entries replaces words. -/
theorem Marked.foldl_replaceOne (marked : subs.Marked) (s : List Char) :
    subs.longestFirst.foldl replaceOne s =
      subs.words.foldl (fun out w => replaceAll ('$' :: w.1) w.2 out) s := by
  rw [words, List.foldl_map]
  refine List.foldl_ext _ _ _ fun out e member => ?_
  have word := marked.cons_tail (subs.mem_longestFirst.mp member)
  rw [← word, replaceOne, replaceWord]
  have nonempty : e.1.toList.isEmpty = false := by
    rw [word]
    rfl
  simp only [nonempty]
  split
  · rfl
  · next absent => exact (replaceAll_eq_self absent).symm

/-- The first of the sorted entries that stands behind a dollar sign is the longest. -/
theorem Marked.expands_expandPiece (marked : subs.Marked) (piece : List Char) :
    subs.Expands piece (expandPiece '$' subs.words piece) := by
  unfold expandPiece
  split
  · next w found =>
    rw [words, List.find?_map, Option.map_eq_some_iff] at found
    obtain ⟨e, found, rfl⟩ := found
    obtain ⟨here, front, back, sorted, earlier⟩ := List.find?_eq_some_iff_append.mp found
    have known := subs.mem_longestFirst.mp (List.mem_of_find?_eq_some found)
    have word := marked.cons_tail known
    have stands : e.1.toList <+: '$' :: piece := by
      rw [word]
      exact List.cons_prefix_cons.mpr ⟨rfl, List.isPrefixOf_iff_prefix.mp here⟩
    obtain ⟨behind, text⟩ := stands
    have rest : piece.drop e.1.toList.tail.length = behind := by
      rw [word, List.cons_append, List.cons.injEq] at text
      rw [← text.2, List.drop_left]
    rw [rest]
    refine .replaced known text.symm fun k' v' known' stands' => ?_
    have order := List.pairwise_insertionSort Before subs.toList
    rw [← longestFirst, sorted, List.pairwise_append, List.pairwise_cons] at order
    have member := (subs.mem_longestFirst (e := (k', v'))).mpr known'
    rw [sorted, List.mem_append, List.mem_cons] at member
    rcases member with first | same | later
    · -- An entry in front of the one found does not stand here.
      have word' := marked.cons_tail known'
      rw [word'] at stands'
      have passed := earlier _ first
      simp only [Function.comp_apply, Bool.not_eq_true', Bool.eq_false_iff, ne_eq,
        List.isPrefixOf_iff_prefix] at passed
      exact absurd (List.cons_prefix_cons.mp stands').2 passed
    · subst same
      exact List.prefix_rfl
    · exact prefix_of_bytes_le stands' ⟨behind, text⟩ (order.2.1.1 _ later)
  · next absent =>
    refine .kept fun k v known stands => ?_
    have word := marked.cons_tail known
    have member := (marked.mem_words (w := (k.toList.tail, v.toList))).mpr
      ⟨k, v, known, word, rfl⟩
    have here := List.find?_eq_none.mp absent _ member
    rw [word] at stands
    exact here (List.isPrefixOf_iff_prefix.mpr (List.cons_prefix_cons.mp stands).2)

/-- A string as the text before its first dollar sign and the pieces behind each of them. No
piece in front of a further dollar sign is the beginning of a longer placeholder. -/
structure Pieces (subs : Substitutions) (s front : List Char) (pieces : List (List Char)) :
    Prop where
  split : s = front ++ pieces.flatMap ('$' :: ·)
  unmarkedFront : '$' ∉ front
  unmarked : ∀ p ∈ pieces, '$' ∉ p
  unbroken : ∀ p ∈ pieces.dropLast, ∀ k v : String, subs[k]? = some v →
    '$' :: p <+: k.toList → '$' :: p = k.toList

/-- A string that is a placeholder as a whole has one piece. -/
theorem Marked.pieces_of_known (marked : subs.Marked) {k v : String} (known : subs[k]? = some v)
    {front : List Char} {pieces : List (List Char)} (parts : Pieces subs k.toList front pieces) :
    front = [] ∧ ∃ p, pieces = [p] ∧ k.toList = '$' :: p := by
  have word := marked.cons_tail known
  have split := parts.split
  have empty : front = [] := by
    cases front with
    | nil => rfl
    | cons c front =>
        rw [word, List.cons_append, List.cons.injEq] at split
        exact absurd (split.1 ▸ List.mem_cons_self) parts.unmarkedFront
  subst empty
  refine ⟨rfl, ?_⟩
  rw [List.nil_append] at split
  cases pieces with
  | nil =>
      rw [split] at word
      cases word
  | cons p pieces =>
      cases pieces with
      | nil => exact ⟨p, rfl, by simpa using split⟩
      | cons q pieces =>
          rw [List.flatMap_cons] at split
          have whole := parts.unbroken p List.mem_cons_self k v known ⟨_, split.symm⟩
          rw [← whole, List.flatMap_cons] at split
          simp at split

theorem length_applyItems (items : List Value) :
    (subs.applyItems items).length = items.length := by
  induction items with
  | nil => rfl
  | cons v items ih => exact congrArg (· + 1) ih

theorem sameShape_apply {v : Value} (other : v.asStr = none) : SameShape (subs.apply v) v := by
  cases v with
  | string => cases other
  | array items => exact subs.length_applyItems items
  | object => trivial
  | null | bool | number => rfl

/-- The passes over a string come to one simultaneous replacement. -/
theorem Marked.replaceStr_pieces (marked : subs.Marked) {s : String} {front : List Char}
    {pieces : List (List Char)} (parts : Pieces subs s.toList front pieces) :
    subs.replaceStr s =
      String.ofList (front ++ pieces.flatMap (expandPiece '$' subs.words)) := by
  unfold replaceStr
  split
  · next unmarked =>
    have none_left : pieces = [] := by
      cases pieces with
      | nil => rfl
      | cons p pieces =>
          rw [parts.split] at unmarked
          exact absurd (List.mem_append_right _ List.mem_cons_self) unmarked
    have split := parts.split
    rw [none_left, List.flatMap_nil, List.append_nil] at split ⊢
    rw [← split, String.ofList_toList]
  · split
    · next replacement known =>
      obtain ⟨rfl, p, rfl, word⟩ := marked.pieces_of_known known parts
      rw [List.flatMap_singleton, List.nil_append,
        (marked.expands_expandPiece p).eq_of_known word known, String.ofList_toList]
    · have clean : ∀ w ∈ subs.words, '$' ∉ w.2 := by
        intro w member
        obtain ⟨k, v, known, _, value⟩ := marked.mem_words.mp member
        exact value ▸ marked.clean k v known
      have unbroken : ∀ p ∈ pieces.dropLast, ∀ w ∈ subs.words, p <+: w.1 → p = w.1 := by
        intro p among w member starts
        obtain ⟨k, v, known, word, _⟩ := marked.mem_words.mp member
        have whole := parts.unbroken p among k v known
          (word ▸ List.cons_prefix_cons.mpr ⟨rfl, starts⟩)
        exact (List.cons.inj (whole.trans word)).2
      rw [marked.foldl_replaceOne, parts.split,
        foldl_replaceAll_marked clean parts.unmarkedFront parts.unmarked unbroken]

/-- Replacing placeholders changes nothing but strings, at every position of a document. In a
string it replaces, behind each dollar sign, the longest placeholder that stands there. -/
theorem apply_expands (marked : subs.Marked) :
    (∀ v path, (subs.apply v).atPath path = (v.atPath path).map subs.apply) ∧
      (∀ v, v.asStr = none → SameShape (subs.apply v) v) ∧
      ∀ (s : String) (front : List Char) (pieces : List (List Char)),
        Pieces subs s.toList front pieces →
          ∃ results, subs.apply (.string s) = .string (String.ofList (front ++ results.flatten)) ∧
            List.Forall₂ subs.Expands pieces results := by
  refine ⟨subs.atPath_apply, fun v => sameShape_apply, fun s front pieces parts => ?_⟩
  refine ⟨pieces.map (expandPiece '$' subs.words), ?_, ?_⟩
  · rw [apply, marked.replaceStr_pieces parts, List.flatMap_def]
  · rw [List.forall₂_map_right_iff, List.forall₂_same]
    exact fun p _ => marked.expands_expandPiece p

/-- One of two tokens begins the other. -/
def nestedTokens : Substitutions :=
  ((∅ : Substitutions).insert "$TOKEN" "a").insert "$TOKEN_OPERATOR" "b"

theorem apply_expands_nestedTokens :
    nestedTokens.apply (.string "Bearer $TOKEN_OPERATOR/$TOKEN") = .string "Bearer b/a" ∧
      ∃ results, nestedTokens.apply (.string "Bearer $TOKEN_OPERATOR/$TOKEN") =
          .string (String.ofList ("Bearer ".toList ++ results.flatten)) ∧
        List.Forall₂ nestedTokens.Expands ["TOKEN_OPERATOR/".toList, "TOKEN".toList] results := by
  have listed : ∀ k v : String, nestedTokens[k]? = some v →
      (k, v) ∈ [("$TOKEN", "a"), ("$TOKEN_OPERATOR", "b")] := fun k v known => by
    have member := Std.ExtTreeMap.mem_toList_iff_getElem?_eq_some.mpr known
    have entries : nestedTokens.toList = [("$TOKEN", "a"), ("$TOKEN_OPERATOR", "b")] := by decide
    rwa [entries] at member
  have marked : nestedTokens.Marked := by
    constructor <;>
    · intro k v known
      have member := listed k v known
      simp only [List.mem_cons, Prod.mk.injEq, List.not_mem_nil, or_false] at member
      rcases member with ⟨rfl, rfl⟩ | ⟨rfl, rfl⟩ <;> simp
  have parts : Pieces nestedTokens "Bearer $TOKEN_OPERATOR/$TOKEN".toList "Bearer ".toList
      ["TOKEN_OPERATOR/".toList, "TOKEN".toList] := by
    refine ⟨by decide, by decide, by decide, fun p among k v known starts => ?_⟩
    obtain rfl : p = "TOKEN_OPERATOR/".toList := by simpa using among
    have member := listed k v known
    simp only [List.mem_cons, Prod.mk.injEq, List.not_mem_nil, or_false] at member
    rcases member with ⟨rfl, rfl⟩ | ⟨rfl, rfl⟩ <;> exact absurd starts (by decide)
  refine ⟨?_, (apply_expands marked).2.2 _ _ _ parts⟩
  rw [apply, show nestedTokens.replaceStr "Bearer $TOKEN_OPERATOR/$TOKEN" = "Bearer b/a" by
    decide +kernel]

end Substitutions
end Lumencast.Conformance
