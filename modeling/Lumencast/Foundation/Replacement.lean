import Mathlib.Data.List.Induction

/-!
# Replacing every occurrence of a word

`replaceAll` scans a text from its left end, and where the word stands it puts the
replacement and goes on behind the word. The lemmas read a text piece by piece: the
word itself, and pieces in which its first letter does not occur.

Words that begin with one mark can be replaced one after the other.
`foldl_replaceAll_marked` says what becomes of each piece between two marks: the first
of the words that stands there decides.
-/

namespace Lumencast.Foundation

universe u

variable {α : Type u} [BEq α]

/-- The scan, with a number of letters of the last occurrence still to be passed. -/
def replaceFrom (word replacement : List α) : Nat → List α → List α
  | _, [] => []
  | k + 1, _ :: s => replaceFrom word replacement k s
  | 0, a :: s =>
      if word.isPrefixOf (a :: s) then
        replacement ++ replaceFrom word replacement (word.length - 1) s
      else a :: replaceFrom word replacement 0 s

/-- The text with every occurrence of a non-empty word replaced. -/
def replaceAll (word replacement s : List α) : List α := replaceFrom word replacement 0 s

variable {word replacement : List α}

theorem replaceFrom_eq_drop (k : Nat) (s : List α) :
    replaceFrom word replacement k s = replaceAll word replacement (s.drop k) := by
  induction k generalizing s with
  | zero => rfl
  | succ k ih =>
      cases s with
      | nil => rfl
      | cons a s => exact ih s

@[simp] theorem replaceAll_nil : replaceAll word replacement [] = [] := rfl

variable [LawfulBEq α]

theorem replaceAll_word_append (nonempty : word ≠ []) (rest : List α) :
    replaceAll word replacement (word ++ rest) =
      replacement ++ replaceAll word replacement rest := by
  cases word with
  | nil => exact absurd rfl nonempty
  | cons a word =>
      have here : (a :: word).isPrefixOf (a :: (word ++ rest)) = true :=
        List.isPrefixOf_iff_prefix.mpr (List.prefix_append ..)
      rw [replaceAll, List.cons_append, replaceFrom, if_pos here, replaceFrom_eq_drop]
      simp

theorem replaceAll_cons_of_not_starts {a : α} {s : List α} (h : ¬word <+: a :: s) :
    replaceAll word replacement (a :: s) = a :: replaceAll word replacement s := by
  have there : ¬word.isPrefixOf (a :: s) = true := fun here =>
    h (List.isPrefixOf_iff_prefix.mp here)
  rw [replaceAll, replaceFrom, if_neg there]
  rfl

/-- A piece without the first letter of the word is passed. -/
theorem replaceAll_append_of_notMem {a : α} {piece : List α} (absent : a ∉ piece)
    (rest : List α) : replaceAll (a :: word) replacement (piece ++ rest) =
      piece ++ replaceAll (a :: word) replacement rest := by
  induction piece with
  | nil => rfl
  | cons b piece ih =>
      obtain ⟨other, absent⟩ := not_or.mp (List.mem_cons.not.mp absent)
      rw [List.cons_append, replaceAll_cons_of_not_starts, ih absent, List.cons_append]
      exact fun h => other (List.cons_prefix_cons.mp h).1

/-- A text without the word stays. -/
theorem replaceAll_eq_self {s : List α} (absent : ¬word <:+: s) :
    replaceAll word replacement s = s := by
  induction s with
  | nil => rfl
  | cons a s ih =>
      rw [replaceAll_cons_of_not_starts fun starts => absent starts.isInfix,
        ih fun within => absent (List.infix_cons within)]

/-! ## Marked words -/

variable {mark : α}

/-- What becomes of a piece behind a mark: the first of the words that stands there is
replaced. A word is given by its letters behind the mark. -/
def expandPiece (mark : α) (words : List (List α × List α)) (piece : List α) : List α :=
  match words.find? fun w => w.1.isPrefixOf piece with
  | some w => w.2 ++ piece.drop w.1.length
  | none => mark :: piece

omit [LawfulBEq α] in
/-- One more word finds a piece expanded already, or as it was. -/
theorem expandPiece_concat (words : List (List α × List α)) (w : List α × List α)
    (piece : List α) : expandPiece mark (words ++ [w]) piece =
      if (words.find? fun u => u.1.isPrefixOf piece).isSome then expandPiece mark words piece
      else expandPiece mark [w] piece := by
  unfold expandPiece
  rw [List.find?_append]
  cases words.find? fun u => u.1.isPrefixOf piece <;> rfl

omit [LawfulBEq α] in
theorem expandPiece_singleton (w : List α × List α) (piece : List α) :
    expandPiece mark [w] piece =
      if w.1.isPrefixOf piece then w.2 ++ piece.drop w.1.length else mark :: piece := by
  rw [expandPiece, List.find?_singleton]
  by_cases stands : w.1.isPrefixOf piece <;> simp only [stands] <;> rfl

omit [LawfulBEq α] in
theorem expandPiece_of_find?_eq_none (mark : α) {words : List (List α × List α)} {piece : List α}
    (absent : (words.find? fun w => w.1.isPrefixOf piece) = none) :
    expandPiece mark words piece = mark :: piece := by
  rw [expandPiece, absent]

omit [LawfulBEq α] in
/-- A piece that a word was found in has no mark any more. -/
theorem mark_notMem_expandPiece {words : List (List α × List α)} {piece : List α}
    (clean : ∀ w ∈ words, mark ∉ w.2) (unmarked : mark ∉ piece)
    (found : (words.find? fun w => w.1.isPrefixOf piece).isSome) :
    mark ∉ expandPiece mark words piece := by
  obtain ⟨w, found⟩ := Option.isSome_iff_exists.mp found
  rw [expandPiece, found]
  intro member
  rcases List.mem_append.mp member with first | second
  · exact clean w (List.mem_of_find?_eq_some found) first
  · exact unmarked (List.mem_of_mem_drop second)

/-- One marked word behind a piece that has not been expanded. -/
theorem replaceAll_mark_append {tail replacement piece rest : List α}
    (unmarked : mark ∉ piece) (closed : rest = [] ∨ (piece <+: tail → piece = tail)) :
    replaceAll (mark :: tail) replacement (mark :: piece ++ rest) =
      expandPiece mark [(tail, replacement)] piece ++
        replaceAll (mark :: tail) replacement rest := by
  by_cases stands : tail <+: piece
  · obtain ⟨behind, rfl⟩ := stands
    have passed : mark ∉ behind := fun h => unmarked (List.mem_append_right tail h)
    have found : tail.isPrefixOf (tail ++ behind) = true :=
      List.isPrefixOf_iff_prefix.mpr (List.prefix_append ..)
    rw [List.cons_append, List.append_assoc, ← List.cons_append,
      replaceAll_word_append (List.cons_ne_nil _ _), replaceAll_append_of_notMem passed,
      expandPiece_singleton, if_pos found, List.drop_left, List.append_assoc]
  · have absent : tail.isPrefixOf piece = false := by
      rw [Bool.eq_false_iff, ne_eq, List.isPrefixOf_iff_prefix]
      exact stands
    have apart : ¬mark :: tail <+: mark :: (piece ++ rest) := by
      intro starts
      have starts := (List.cons_prefix_cons.mp starts).2
      rcases List.prefix_or_prefix_of_prefix starts (List.prefix_append piece rest) with
        within | beyond
      · exact stands within
      · rcases closed with rfl | closed
        · rw [List.append_nil] at starts
          exact stands starts
        · exact stands (closed beyond ▸ List.prefix_rfl)
    rw [List.cons_append, replaceAll_cons_of_not_starts apart,
      replaceAll_append_of_notMem unmarked, expandPiece_singleton, absent]
    rfl

/-- One more word in a text whose pieces the earlier words have expanded. -/
theorem replaceAll_flatMap_expandPiece {words : List (List α × List α)} {w : List α × List α}
    (clean : ∀ u ∈ words, mark ∉ u.2) {pieces : List (List α)} (unmarked : ∀ p ∈ pieces, mark ∉ p)
    (unbroken : ∀ p ∈ pieces.dropLast, p <+: w.1 → p = w.1) :
    replaceAll (mark :: w.1) w.2 (pieces.flatMap (expandPiece mark words)) =
      pieces.flatMap (expandPiece mark (words ++ [w])) := by
  induction pieces with
  | nil => rfl
  | cons piece pieces ih =>
      have later := ih (fun p member => unmarked p (List.mem_cons_of_mem piece member))
        fun p member => unbroken p (by
          cases pieces with
          | nil => cases member
          | cons q pieces => exact List.mem_cons_of_mem piece member)
      rw [List.flatMap_cons, List.flatMap_cons, expandPiece_concat]
      by_cases found : (words.find? fun u => u.1.isPrefixOf piece).isSome
      · have passed := mark_notMem_expandPiece clean (unmarked piece List.mem_cons_self) found
        rw [if_pos found, replaceAll_append_of_notMem passed, later]
      · have whole := expandPiece_of_find?_eq_none mark (Option.not_isSome_iff_eq_none.mp
          found)
        have closed : pieces.flatMap (expandPiece mark words) = [] ∨
            (piece <+: w.1 → piece = w.1) := by
          cases pieces with
          | nil => exact .inl rfl
          | cons q pieces => exact .inr (unbroken piece List.mem_cons_self)
        rw [if_neg found, whole,
          replaceAll_mark_append (unmarked piece List.mem_cons_self) closed, later]

/-- Marked words are replaced piece by piece, if no piece in front of a further mark is the
beginning of a longer word: the first word that stands there decides. -/
theorem foldl_replaceAll_marked {words : List (List α × List α)}
    (clean : ∀ w ∈ words, mark ∉ w.2) {front : List α} (unmarkedFront : mark ∉ front)
    {pieces : List (List α)} (unmarked : ∀ p ∈ pieces, mark ∉ p)
    (unbroken : ∀ p ∈ pieces.dropLast, ∀ w ∈ words, p <+: w.1 → p = w.1) :
    words.foldl (fun out w => replaceAll (mark :: w.1) w.2 out)
        (front ++ pieces.flatMap (mark :: ·)) =
      front ++ pieces.flatMap (expandPiece mark words) := by
  induction words using List.reverseRecOn with
  | nil => rfl
  | append_singleton words w ih =>
      have earlier : ∀ {Q : List α × List α → Prop}, (∀ u ∈ words ++ [w], Q u) →
          ∀ u ∈ words, Q u := fun all u member => all u (List.mem_append_left _ member)
      have last : w ∈ words ++ [w] := List.mem_append_right _ (List.mem_singleton.mpr rfl)
      rw [List.foldl_append, ih (earlier clean) fun p member => earlier (unbroken p member),
        List.foldl_cons, List.foldl_nil, replaceAll_append_of_notMem unmarkedFront,
        replaceAll_flatMap_expandPiece (earlier clean) unmarked
          fun p member => unbroken p member w last]

end Lumencast.Foundation
