/-!
# Strings as sequences of characters

String operations of the modelled programs are defined on character lists:
`segments` is the split at dots and `joinSegments` its inverse, `bytes` the UTF-8
encoding, `byteSlice` the part between two byte offsets, `stripPrefix` the removal of a
literal prefix, and `debugStr` the quoted rendering with the usual escapes.
`stripPrefix_eq_some` and the library's `List.splitOn_append_cons_self` relate literal
prefixes to prefixes of the segment list, and `all_bytes` makes a test of ASCII bytes one
of characters.
-/

namespace Lumencast.Foundation

/-- The pieces between dots; a string without a dot is its own single piece. -/
def segments (s : String) : List (List Char) := s.toList.splitOn '.'

/-- The UTF-8 encoding. -/
def bytes (cs : List Char) : List UInt8 := cs.flatMap String.utf8EncodeChar

/-- An ASCII character is its own byte. -/
theorem utf8EncodeChar_of_ascii {c : Char} (ascii : c.toNat < 128) :
    String.utf8EncodeChar c = [UInt8.ofNat c.toNat] := by
  have size : c.utf8Size = 1 := by
    rw [Char.utf8Size_eq_one_iff, UInt32.le_iff_toNat_le]
    exact Nat.le_of_lt_succ ascii
  rw [String.utf8EncodeChar_eq_singleton size]
  rfl

/-- The encoding of any other character begins with a byte that is not ASCII. -/
theorem exists_byte_of_not_ascii {c : Char} (wide : ¬c.toNat < 128) :
    ∃ b rest, String.utf8EncodeChar c = b :: rest ∧ 128 ≤ b.toNat := by
  have high (x y : UInt8) (h : 128 ≤ y.toNat) : 128 ≤ (x ||| y).toNat := by
    rw [UInt8.toNat_or]
    exact Nat.le_trans h Nat.right_le_or
  rcases c.utf8Size_eq with size | size | size | size
  · rw [Char.utf8Size_eq_one_iff, UInt32.le_iff_toNat_le] at size
    exact absurd (Nat.lt_succ_of_le size) wide
  · rw [String.utf8EncodeChar_eq_cons_cons size]
    exact ⟨_, _, rfl, high _ _ (by decide)⟩
  · rw [String.utf8EncodeChar_eq_cons_cons_cons size]
    exact ⟨_, _, rfl, high _ _ (by decide)⟩
  · rw [String.utf8EncodeChar_eq_cons_cons_cons_cons size]
    exact ⟨_, _, rfl, high _ _ (by decide)⟩

theorem length_bytes_of_ascii {cs : List Char} (ascii : ∀ c ∈ cs, c.toNat < 128) :
    (bytes cs).length = cs.length := by
  induction cs with
  | nil => rfl
  | cons c cs ih =>
      obtain ⟨head, tail⟩ := List.forall_mem_cons.mp ascii
      rw [bytes, List.flatMap_cons, ← bytes, List.length_append, ih tail,
        utf8EncodeChar_of_ascii head, List.length_singleton, Nat.add_comm, List.length_cons]

/-- A test that only ASCII bytes pass is a test of the characters. -/
theorem all_bytes {p : UInt8 → Bool} (narrow : ∀ b, p b = true → b.toNat < 128)
    {cs : List Char} : (bytes cs).all p = true ↔
      ∀ c ∈ cs, c.toNat < 128 ∧ p (UInt8.ofNat c.toNat) = true := by
  induction cs with
  | nil => simp [bytes]
  | cons c cs ih =>
      rw [bytes, List.flatMap_cons, ← bytes, List.all_append, Bool.and_eq_true, ih,
        List.forall_mem_cons]
      refine and_congr_left fun _ => ?_
      by_cases ascii : c.toNat < 128
      · simp [utf8EncodeChar_of_ascii ascii, ascii]
      · obtain ⟨b, rest, encoded, wide⟩ := exists_byte_of_not_ascii ascii
        refine iff_of_false (fun all => ?_) fun both => ascii both.1
        rw [encoded, List.all_cons, Bool.and_eq_true] at all
        exact absurd (narrow b all.1) (Nat.not_lt.mpr wide)

theorem bytes_append (a b : List Char) : bytes (a ++ b) = bytes a ++ bytes b :=
  List.flatMap_append ..

/-- Of two beginnings of a text, one with no fewer bytes is at least as long. -/
theorem prefix_of_bytes_le {a b s : List Char} (first : a <+: s) (second : b <+: s)
    (shorter : (bytes a).length ≤ (bytes b).length) : a <+: b := by
  rcases List.prefix_or_prefix_of_prefix first second with within | ⟨rest, rfl⟩
  · exact within
  · cases rest with
    | nil => exact ⟨[], by simp⟩
    | cons c rest =>
        have positive := c.utf8Size_pos
        have length := String.length_utf8EncodeChar c
        rw [bytes_append, List.length_append, bytes, bytes, List.flatMap_cons,
          List.length_append] at shorter
        omega

/-- Cut a text behind its first `n` bytes; `none` inside a character or past the end. -/
def splitAtByte : List Char → Nat → Option (List Char × List Char)
  | cs, 0 => some ([], cs)
  | [], _ + 1 => none
  | c :: cs, n + 1 =>
      if c.utf8Size ≤ n + 1 then
        (splitAtByte cs (n + 1 - c.utf8Size)).map fun parts => (c :: parts.1, parts.2)
      else none

/-- The text between two byte offsets; `none` where slicing fails. -/
def byteSlice (cs : List Char) (first last : Nat) : Option (List Char) :=
  (splitAtByte cs last).bind fun parts => (splitAtByte parts.1 first).map Prod.snd

/-- Both ends of every part of a text are good places to cut. -/
theorem splitAtByte_append (a b : List Char) :
    splitAtByte (a ++ b) (bytes a).length = some (a, b) := by
  induction a with
  | nil => cases b <;> rfl
  | cons c a ih =>
      have length : (bytes (c :: a)).length = c.utf8Size + (bytes a).length := by
        rw [bytes, List.flatMap_cons, ← bytes, List.length_append, String.length_utf8EncodeChar]
      have positive := c.utf8Size_pos
      obtain ⟨n, size⟩ : ∃ n, c.utf8Size + (bytes a).length = n + 1 :=
        ⟨_, (Nat.succ_pred_eq_of_pos (by omega)).symm⟩
      have fits : c.utf8Size ≤ n + 1 := by omega
      have behind : n + 1 - c.utf8Size = (bytes a).length := by omega
      rw [length, size, List.cons_append, splitAtByte, if_pos fits, behind, ih, Option.map_some]

theorem byteSlice_append (a b c : List Char) :
    byteSlice (a ++ b ++ c) (bytes a).length (bytes (a ++ b)).length = some b := by
  rw [byteSlice, splitAtByte_append, Option.bind_some, splitAtByte_append, Option.map_some]

/-- The text after a literal prefix. -/
def stripPrefix (pre s : List Char) : Option (List Char) :=
  if pre <+: s then some (s.drop pre.length) else none

theorem stripPrefix_eq_some {pre s rest : List Char} :
    stripPrefix pre s = some rest ↔ s = pre ++ rest := by
  unfold stripPrefix
  constructor
  · intro h
    split at h
    · next isPrefix =>
      obtain ⟨tail, rfl⟩ := isPrefix
      cases h
      simp
    · cases h
  · rintro rfl
    simp

/-- A string extended past a dot keeps its segments in front. -/
theorem segments_prefix_of_append_dot {p s : String} {rest : List Char}
    (h : s.toList = p.toList ++ '.' :: rest) : segments p <+: segments s := by
  refine ⟨rest.splitOn '.', ?_⟩
  rw [segments, segments, h, List.splitOn_append_cons_self]

/-- The text of a list of segments. -/
def joinSegments (segments : List (List Char)) : List Char := ['.'].intercalate segments

theorem notMem_of_mem_splitOn {text segment : List Char} (member : segment ∈ text.splitOn '.') :
    '.' ∉ segment := by
  induction text generalizing segment with
  | nil =>
      obtain rfl := List.mem_singleton.mp member
      exact List.not_mem_nil
  | cons c text ih =>
      rw [List.splitOn_cons_eq_if_modifyHead] at member
      split at member
      · rcases List.mem_cons.mp member with rfl | later
        · exact List.not_mem_nil
        · exact ih later
      · next other =>
        obtain ⟨head, rest, split⟩ := List.exists_cons_of_ne_nil (List.splitOn_ne_nil '.' text)
        rw [split, List.modifyHead_cons] at member
        rcases List.mem_cons.mp member with rfl | later
        · refine fun dotted => ?_
          rcases List.mem_cons.mp dotted with same | dotted
          · exact other (beq_iff_eq.mpr same.symm)
          · exact ih (split ▸ List.mem_cons_self) dotted
        · exact ih (split ▸ List.mem_cons_of_mem _ later)

theorem joinSegments_singleton (part : List Char) : joinSegments [part] = part := by
  simp [joinSegments]

theorem joinSegments_cons_cons (part next : List Char) (parts : List (List Char)) :
    joinSegments (part :: next :: parts) = part ++ '.' :: joinSegments (next :: parts) := by
  rw [joinSegments, List.intercalate_cons_cons, List.append_assoc, List.singleton_append,
    ← joinSegments]

theorem joinSegments_append {front parts : List (List Char)} (before : front ≠ [])
    (behind : parts ≠ []) :
    joinSegments (front ++ parts) = joinSegments front ++ '.' :: joinSegments parts := by
  induction front with
  | nil => exact absurd rfl before
  | cons part front ih =>
      cases front with
      | nil =>
          obtain ⟨next, rest, rfl⟩ := List.exists_cons_of_ne_nil behind
          rw [List.singleton_append, joinSegments_cons_cons, joinSegments_singleton]
      | cons next front =>
          rw [List.cons_append, List.cons_append, joinSegments_cons_cons, ← List.cons_append,
            ih (List.cons_ne_nil _ _), joinSegments_cons_cons, List.append_assoc,
            List.cons_append]

/-- Texts that are joined from segments may be joined segment by segment. -/
theorem joinSegments_flatMap {split : List Char → List (List Char)}
    (nonempty : ∀ part, split part ≠ []) (parts : List (List Char)) :
    joinSegments (parts.flatMap split) = joinSegments (parts.map (joinSegments ∘ split)) := by
  induction parts with
  | nil => rfl
  | cons part parts ih =>
      cases parts with
      | nil => simp [joinSegments]
      | cons next parts =>
          have behind : (next :: parts).flatMap split ≠ [] := by
            rw [List.flatMap_cons]
            exact List.append_ne_nil_of_left_ne_nil (nonempty next) _
          rw [List.flatMap_cons, joinSegments_append (nonempty part) behind, ih, List.map_cons,
            List.map_cons, List.map_cons, joinSegments_cons_cons]
          rfl

theorem mem_joinSegments {c : Char} (other : c ≠ '.') {parts : List (List Char)} :
    c ∈ joinSegments parts ↔ ∃ part ∈ parts, c ∈ part := by
  induction parts with
  | nil => simp [joinSegments]
  | cons part parts ih =>
      cases parts with
      | nil => simp [joinSegments]
      | cons next parts =>
          rw [joinSegments_cons_cons, List.mem_append, List.mem_cons, ih, or_iff_right other]
          simp only [List.mem_cons, exists_eq_or_imp]

theorem exists_segments_cons (s : String) : ∃ head rest, segments s = head :: rest :=
  List.exists_cons_of_ne_nil (List.splitOn_ne_nil '.' s.toList)

theorem joinSegments_segments (s : String) : joinSegments (segments s) = s.toList :=
  List.intercalate_splitOn '.'

/-- A character of a segment is one of the text. -/
theorem mem_of_mem_segments {c : Char} (other : c ≠ '.') {s : String} {segment : List Char}
    (member : segment ∈ segments s) (here : c ∈ segment) : c ∈ s.toList := by
  rw [← joinSegments_segments, mem_joinSegments other]
  exact ⟨segment, member, here⟩

private def escapeChar (c : Char) : List Char :=
  match c with
  | '"' => ['\\', '"']
  | '\\' => ['\\', '\\']
  | '\n' => ['\\', 'n']
  | '\r' => ['\\', 'r']
  | '\t' => ['\\', 't']
  | '\x00' => ['\\', '0']
  | c =>
      if c.toNat < 32 ∨ c.toNat = 127 then
        ['\\', 'u', '\x7b'] ++ Nat.toDigits 16 c.toNat ++ ['\x7d']
      else [c]

/-- The debug rendering of a string: quoted, with control characters escaped. -/
def debugStr (s : String) : String :=
  String.ofList ('"' :: s.toList.flatMap escapeChar ++ ['"'])

end Lumencast.Foundation
