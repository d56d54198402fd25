import Lumencast.Protocol.RoundTrip

/-!
# The grammar of leaf paths

A segment is a placeholder, an index or an identifier, and a first segment that starts with
`__` is that and an identifier. `LeafPath.Valid` accepts exactly the strings of this
grammar: the byte tests of the source are tests of ASCII characters, and its three segment
classes overlap in nothing that matters.

`validateSliced` is the validation with the slices that the source takes, which fail where
an offset lies inside a character. None of them fails.
-/

namespace Lumencast.Protocol

open Foundation

def IsLetter (c : Char) : Prop := ('A' ≤ c ∧ c ≤ 'Z') ∨ ('a' ≤ c ∧ c ≤ 'z')

def IsDigit (c : Char) : Prop := '0' ≤ c ∧ c ≤ '9'

def IsNameChar (c : Char) : Prop := IsLetter c ∨ IsDigit c ∨ c = '_'

instance (c : Char) : Decidable (IsLetter c) := inferInstanceAs (Decidable (_ ∨ _))

instance (c : Char) : Decidable (IsDigit c) := inferInstanceAs (Decidable (_ ∧ _))

instance (c : Char) : Decidable (IsNameChar c) := inferInstanceAs (Decidable (_ ∨ _))

/-- `[A-Za-z0-9_]+` -/
def IsName (cs : List Char) : Prop := cs ≠ [] ∧ ∀ c ∈ cs, IsNameChar c

/-- `[A-Za-z_][A-Za-z0-9_]*` -/
def IsIdent (cs : List Char) : Prop :=
  ∃ first rest, cs = first :: rest ∧ (IsLetter first ∨ first = '_') ∧ ∀ c ∈ rest, IsNameChar c

/-- `[0-9]+` -/
def IsNumeral (cs : List Char) : Prop := cs ≠ [] ∧ ∀ c ∈ cs, IsDigit c

/-- The placeholder of a name. -/
def placeholder (name : List Char) : List Char := '\x7b' :: (name ++ ['\x7d'])

inductive IsSegment : List Char → Prop
  | placeholder {name : List Char} (h : IsName name) : IsSegment (placeholder name)
  | numeral {cs : List Char} (h : IsNumeral cs) : IsSegment cs
  | ident {cs : List Char} (h : IsIdent cs) : IsSegment cs

/-- A leaf path: its segments, and the rule for a reserved first segment. -/
structure IsPath (s : String) : Prop where
  nonempty : s ≠ ""
  segments : ∀ segment ∈ segments s, IsSegment segment
  reserved : ∀ tail, (Foundation.segments s).head? = some ('_' :: '_' :: tail) → IsIdent tail

/-! ## Byte tests -/

theorem char_le_iff {c d : Char} : c ≤ d ↔ c.toNat ≤ d.toNat := UInt32.le_iff_toNat_le

section

variable {b : UInt8}

theorem isAsciiDigit_iff : isAsciiDigit b = true ↔ 48 ≤ b.toNat ∧ b.toNat ≤ 57 := by
  simp [isAsciiDigit, UInt8.le_iff_toNat_le]

theorem isAsciiAlphabetic_iff : isAsciiAlphabetic b = true ↔
    (65 ≤ b.toNat ∧ b.toNat ≤ 90) ∨ (97 ≤ b.toNat ∧ b.toNat ≤ 122) := by
  simp [isAsciiAlphabetic, UInt8.le_iff_toNat_le]

theorem isIdentByte_iff : isIdentByte b = true ↔
    ((65 ≤ b.toNat ∧ b.toNat ≤ 90) ∨ (97 ≤ b.toNat ∧ b.toNat ≤ 122)) ∨
      (48 ≤ b.toNat ∧ b.toNat ≤ 57) ∨ b.toNat = 95 := by
  rw [isIdentByte, Bool.or_eq_true, Bool.or_eq_true, isAsciiAlphabetic_iff, isAsciiDigit_iff,
    beq_iff_eq, ← UInt8.toNat_inj, or_assoc]
  rfl

end

theorem isDigit_iff {c : Char} :
    c.toNat < 128 ∧ isAsciiDigit (UInt8.ofNat c.toNat) = true ↔ IsDigit c := by
  rw [isAsciiDigit_iff, UInt8.toNat_ofNat', IsDigit, char_le_iff, char_le_iff]
  have zero : '0'.toNat = 48 := rfl
  have nine : '9'.toNat = 57 := rfl
  omega

theorem isLetter_iff {c : Char} :
    c.toNat < 128 ∧ isAsciiAlphabetic (UInt8.ofNat c.toNat) = true ↔ IsLetter c := by
  rw [isAsciiAlphabetic_iff, UInt8.toNat_ofNat', IsLetter]
  simp only [char_le_iff]
  have bounds : 'A'.toNat = 65 ∧ 'Z'.toNat = 90 ∧ 'a'.toNat = 97 ∧ 'z'.toNat = 122 :=
    ⟨rfl, rfl, rfl, rfl⟩
  omega

theorem isNameChar_iff {c : Char} :
    c.toNat < 128 ∧ isIdentByte (UInt8.ofNat c.toNat) = true ↔ IsNameChar c := by
  have underscore : c.toNat < 128 ∧ (UInt8.ofNat c.toNat).toNat = 95 ↔ c = '_' := by
    rw [← Char.toNat_inj, UInt8.toNat_ofNat']
    have code : '_'.toNat = 95 := rfl
    omega
  rw [isIdentByte_iff, ← isAsciiAlphabetic_iff, ← isAsciiDigit_iff, and_or_left, and_or_left,
    isLetter_iff, isDigit_iff, underscore, IsNameChar]

theorem all_isAsciiDigit_iff {cs : List Char} :
    (bytes cs).all isAsciiDigit = true ↔ ∀ c ∈ cs, IsDigit c := by
  rw [all_bytes fun b digit => by have := isAsciiDigit_iff.mp digit; omega]
  exact forall₂_congr fun c _ => isDigit_iff

theorem all_isIdentByte_iff {cs : List Char} :
    (bytes cs).all isIdentByte = true ↔ ∀ c ∈ cs, IsNameChar c := by
  rw [all_bytes fun b name => by have := isIdentByte_iff.mp name; omega]
  exact forall₂_congr fun c _ => isNameChar_iff

/-! ## Segments -/

theorem isIndex_iff {cs : List Char} : isIndex cs = true ↔ IsNumeral cs := by
  rw [isIndex, Bool.and_eq_true, all_isAsciiDigit_iff, Bool.not_eq_true', List.isEmpty_eq_false_iff,
    IsNumeral]

theorem isIdentifier_iff {cs : List Char} : isIdentifier cs = true ↔ IsIdent cs := by
  cases cs with
  | nil => exact iff_of_false (by decide) fun ⟨_, _, empty, _⟩ => nomatch empty
  | cons c cs =>
      have first : ∀ b, (isAsciiAlphabetic b || b == 95) = true ↔
          isAsciiAlphabetic b = true ∨ b.toNat = 95 := by
        intro b
        rw [Bool.or_eq_true, beq_iff_eq, ← UInt8.toNat_inj]
        rfl
      have rest : IsIdent (c :: cs) ↔
          (IsLetter c ∨ c = '_') ∧ ∀ d ∈ cs, IsNameChar d := by
        constructor
        · rintro ⟨_, _, ⟨⟩, initial, others⟩
          exact ⟨initial, others⟩
        · exact fun ⟨initial, others⟩ => ⟨c, cs, rfl, initial, others⟩
      rw [rest]
      by_cases ascii : c.toNat < 128
      · have encoded : bytes (c :: cs) = UInt8.ofNat c.toNat :: bytes cs := by
          rw [bytes, List.flatMap_cons, ← bytes, utf8EncodeChar_of_ascii ascii,
            List.singleton_append]
        have underscore : (UInt8.ofNat c.toNat).toNat = 95 ↔ c = '_' := by
          rw [← Char.toNat_inj, UInt8.toNat_ofNat']
          have code : '_'.toNat = 95 := rfl
          omega
        rw [isIdentifier, encoded]
        simp only [Bool.and_eq_true, first, all_isIdentByte_iff, underscore, ← isLetter_iff, ascii,
          true_and]
      · obtain ⟨b, tail, encoded, wide⟩ := exists_byte_of_not_ascii ascii
        refine iff_of_false (fun h => ?_) fun h => ?_
        · rw [isIdentifier, bytes, List.flatMap_cons, encoded, List.cons_append] at h
          simp only [Bool.and_eq_true, first, isAsciiAlphabetic_iff] at h
          omega
        · rcases h.1 with letter | rfl
          · exact ascii (isLetter_iff.mpr letter).1
          · exact ascii (by decide)

instance (cs : List Char) : Decidable (IsNumeral cs) := decidable_of_iff _ isIndex_iff

instance (cs : List Char) : Decidable (IsIdent cs) := decidable_of_iff _ isIdentifier_iff

instance (cs : List Char) : Decidable (IsName cs) :=
  decidable_of_iff ((!cs.isEmpty && (bytes cs).all isIdentByte) = true) <| by
    rw [Bool.and_eq_true, all_isIdentByte_iff, Bool.not_eq_true', List.isEmpty_eq_false_iff, IsName]

theorem isScopePlaceholder_iff {cs : List Char} :
    isScopePlaceholder cs = true ↔ ∃ inner, cs = placeholder inner := by
  unfold isScopePlaceholder
  rw [Bool.and_eq_true, Bool.and_eq_true, beq_iff_eq, beq_iff_eq, decide_eq_true_eq]
  constructor
  · rintro ⟨⟨opened, closed⟩, _⟩
    obtain ⟨tail, rfl⟩ := List.head?_eq_some_iff.mp opened
    obtain ⟨front, split⟩ := List.getLast?_eq_some_iff.mp closed
    cases front with
    | nil => cases split
    | cons c inner =>
        obtain ⟨rfl, rfl⟩ := List.cons.inj split
        exact ⟨inner, rfl⟩
  · rintro ⟨inner, rfl⟩
    refine ⟨⟨rfl, ?_⟩, ?_⟩
    · rw [placeholder, ← List.cons_append, List.getLast?_concat]
    · have length : (bytes (placeholder inner)).length = 1 + ((bytes inner).length + 1) := by
        rw [placeholder, ← List.singleton_append, bytes_append, bytes_append, List.length_append,
          List.length_append]
        rfl
      omega

/-- The braces belong to no other class of segments. -/
theorem isSegment_placeholder {inner : List Char} :
    IsSegment (placeholder inner) ↔ IsName inner := by
  constructor
  · intro segment
    generalize same : placeholder inner = cs at segment
    cases segment with
    | placeholder h =>
        have inner_eq := List.append_cancel_right (List.cons.inj same).2
        exact inner_eq ▸ h
    | numeral h =>
        subst same
        exact absurd (h.2 _ List.mem_cons_self) (by decide)
    | ident h =>
        obtain ⟨first, rest, split, initial, _⟩ := h
        rw [← same] at split
        obtain ⟨rfl, _⟩ := List.cons.inj split
        exact absurd initial (by decide)
  · exact .placeholder

theorem isIdent_reserved {tail : List Char} (ident : IsIdent tail) :
    IsIdent ('_' :: '_' :: tail) := by
  obtain ⟨first, rest, rfl, initial, others⟩ := ident
  have underscore : IsNameChar '_' := .inr (.inr rfl)
  refine ⟨'_', _, rfl, .inr rfl, List.forall_mem_cons.mpr ⟨underscore, ?_⟩⟩
  refine List.forall_mem_cons.mpr ⟨?_, others⟩
  exact initial.imp id .inr

theorem ne_nil_of_isSegment {segment : List Char} (h : IsSegment segment) : segment ≠ [] := by
  cases h with
  | placeholder => exact List.cons_ne_nil _ _
  | numeral h => exact h.1
  | ident h =>
      obtain ⟨first, rest, rfl, _⟩ := h
      exact List.cons_ne_nil _ _

/-- One pass of the validation accepts the segments of the grammar. -/
theorem validateSegment_eq_ok {i : Nat} {segment : List Char} :
    validateSegment i segment = .ok () ↔
      IsSegment segment ∧ (i = 0 → ∀ tail, segment = '_' :: '_' :: tail → IsIdent tail) := by
  unfold validateSegment
  split
  · next empty =>
    refine iff_of_false (by simp) fun h => ?_
    exact ne_nil_of_isSegment h.1 (List.isEmpty_iff.mp empty)
  · split
    · next braced =>
      obtain ⟨inner, rfl⟩ := isScopePlaceholder_iff.mp braced
      have between : (placeholder inner).tail.dropLast = inner := List.dropLast_concat
      have open_ : ∀ tail, placeholder inner ≠ '_' :: '_' :: tail := by
        intro tail same
        exact absurd (List.cons.inj same).1 (by decide)
      rw [between, isSegment_placeholder, ite_error_eq_ok, Bool.or_eq_true, not_or, IsName,
        List.isEmpty_iff, Bool.not_eq_true', Bool.not_eq_false, all_isIdentByte_iff,
        and_iff_left rfl]
      exact (and_iff_left fun _ tail same => absurd same (open_ tail)).symm
    · next unbraced =>
      have classes : IsSegment segment ↔ IsNumeral segment ∨ IsIdent segment := by
        constructor
        · intro h
          cases h with
          | placeholder h => exact absurd (isScopePlaceholder_iff.mpr ⟨_, rfl⟩) unbraced
          | numeral h => exact .inl h
          | ident h => exact .inr h
        · rintro (h | h)
          · exact .numeral h
          · exact .ident h
      split
      · next first =>
        rw [Bool.and_eq_true, beq_iff_eq, List.isPrefixOf_iff_prefix] at first
        obtain ⟨rfl, tail, rfl⟩ := first
        have behind : (['_', '_'] ++ tail).drop 2 = tail := rfl
        rw [behind, ite_error_eq_ok, Bool.or_eq_true, not_or, Bool.not_eq_true', Bool.not_eq_false,
          isIdentifier_iff, and_iff_left rfl, List.isEmpty_iff]
        constructor
        · rintro ⟨_, ident⟩
          refine ⟨.ident (isIdent_reserved ident), fun _ tail' same => ?_⟩
          obtain rfl := (List.cons.inj (List.cons.inj same).2).2
          exact ident
        · rintro ⟨_, reserved⟩
          have ident := reserved rfl tail rfl
          exact ⟨ne_nil_of_isSegment (.ident ident), ident⟩
      · next other =>
        have unreserved : i = 0 → ∀ tail, segment ≠ '_' :: '_' :: tail := by
          rintro rfl tail rfl
          exact other rfl
        rw [ite_error_eq_ok, isSegmentToken, Bool.not_eq_true', Bool.not_eq_false, Bool.or_eq_true,
          isIndex_iff, isIdentifier_iff, ← classes, and_iff_left rfl]
        exact (and_iff_left fun start tail same => absurd same (unreserved start tail)).symm

theorem validateFrom_eq_ok {i : Nat} {segments : List (List Char)} :
    validateFrom i segments = .ok () ↔
      (∀ segment ∈ segments, IsSegment segment) ∧
        (i = 0 → ∀ tail, segments.head? = some ('_' :: '_' :: tail) → IsIdent tail) := by
  induction segments generalizing i with
  | nil => simp [validateFrom]
  | cons segment rest ih =>
      rw [validateFrom, check_bind_eq_ok, ih, validateSegment_eq_ok, List.forall_mem_cons]
      have later : ¬i + 1 = 0 := Nat.succ_ne_zero i
      simp only [later, false_implies, and_true, List.head?_cons, Option.some.injEq]
      exact and_right_comm

/-- The validating constructor accepts exactly the grammar. -/
theorem LeafPath.valid_iff {s : String} : Valid s ↔ IsPath s := by
  rw [Valid, validate, ite_error_eq_ok, validateFrom_eq_ok, String.isEmpty_iff]
  constructor
  · rintro ⟨nonempty, segments, reserved⟩
    exact ⟨nonempty, segments, reserved rfl⟩
  · rintro ⟨nonempty, segments, reserved⟩
    exact ⟨nonempty, segments, fun _ => reserved⟩

/-! ## Slices -/

/-- One pass of the loop in `validate`, with its slices. -/
def validateSegmentSliced (i : Nat) (segment : List Char) : Option (Except LumencastError Unit) :=
  if segment.isEmpty then
    some (.error (.invalidPath "empty segment (consecutive dots)"))
  else if isScopePlaceholder segment then
    -- `&segment[1..segment.len() - 1]`
    (byteSlice segment 1 ((bytes segment).length - 1)).map fun inner =>
      if inner.isEmpty || !(bytes inner).all isIdentByte then
        .error (.invalidPath "scope placeholder must wrap a non-empty identifier")
      else .ok ()
  else if i == 0 && ['_', '_'].isPrefixOf segment then
    -- `&segment[2..]`
    (byteSlice segment 2 (bytes segment).length).map fun head =>
      if head.isEmpty || !isIdentifier head then
        .error (.invalidPath "reserved namespace head is invalid")
      else .ok ()
  else if !isSegmentToken segment then
    some (.error (.invalidPath ("invalid segment: " ++ debugStr (String.ofList segment))))
  else some (.ok ())

def validateFromSliced : Nat → List (List Char) → Option (Except LumencastError Unit)
  | _, [] => some (.ok ())
  | i, segment :: rest =>
      match validateSegmentSliced i segment with
      | some (.ok ()) => validateFromSliced (i + 1) rest
      | some (.error e) => some (.error e)
      | none => none

/-- `validate` with its slices; `none` where one of them fails. -/
def validateSliced (s : String) : Option (Except LumencastError Unit) :=
  if s.isEmpty then some (.error (.invalidPath "empty leaf path"))
  else validateFromSliced 0 (segments s)

/-- The slice between the braces. -/
theorem byteSlice_placeholder (inner : List Char) :
    byteSlice (placeholder inner) 1 ((bytes (placeholder inner)).length - 1) = some inner := by
  have whole : placeholder inner = ['\x7b'] ++ inner ++ ['\x7d'] := rfl
  have last : (bytes (placeholder inner)).length - 1 = (bytes (['\x7b'] ++ inner)).length := by
    rw [whole, bytes_append _ ['\x7d'], List.length_append]
    exact Nat.add_sub_cancel ..
  rw [last, whole]
  exact byteSlice_append ['\x7b'] inner ['\x7d']

/-- The slice behind the reserved prefix. -/
theorem byteSlice_reserved (tail : List Char) :
    byteSlice (['_', '_'] ++ tail) 2 (bytes (['_', '_'] ++ tail)).length = some tail := by
  have slice := byteSlice_append ['_', '_'] tail []
  rw [List.append_nil] at slice
  exact slice

theorem validateSegmentSliced_eq (i : Nat) (segment : List Char) :
    validateSegmentSliced i segment = some (validateSegment i segment) := by
  unfold validateSegmentSliced validateSegment
  split
  · rfl
  · split
    · next braced =>
      obtain ⟨inner, rfl⟩ := isScopePlaceholder_iff.mp braced
      have between : (placeholder inner).tail.dropLast = inner := List.dropLast_concat
      rw [byteSlice_placeholder, Option.map_some, between]
    · split
      · next first =>
        rw [Bool.and_eq_true, beq_iff_eq, List.isPrefixOf_iff_prefix] at first
        obtain ⟨_, tail, rfl⟩ := first
        rw [byteSlice_reserved, Option.map_some]
        rfl
      · split <;> rfl

theorem validateFromSliced_eq (i : Nat) (segments : List (List Char)) :
    validateFromSliced i segments = some (validateFrom i segments) := by
  induction segments generalizing i with
  | nil => rfl
  | cons segment rest ih =>
      rw [validateFromSliced, validateSegmentSliced_eq, validateFrom]
      cases validateSegment i segment with
      | ok u => exact ih (i + 1)
      | error e => rfl

/-- No slice of the validation fails. -/
theorem validateSliced_eq (s : String) : validateSliced s = some (validate s) := by
  unfold validateSliced validate
  split
  · rfl
  · exact validateFromSliced_eq 0 (segments s)

/-- No slice of the validation fails, a string parses exactly if it is a path of the grammar,
and the parsed path is the string, in memory and through its serialised form. -/
theorem LeafPath.parse_exact (s : String) :
    validateSliced s = some (validate s) ∧ ((∃ p, parse s = .ok p) ↔ IsPath s) ∧
      ∀ p, parse s = .ok p →
        p.str = s ∧ p.toValue = .string s ∧ LeafPath.ofValue p.toValue = .ok p := by
  refine ⟨validateSliced_eq s, ?_, fun p parsed => ?_⟩
  · rw [← valid_iff]
    constructor
    · rintro ⟨p, parsed⟩
      exact (parse_eq_ok.mp parsed).1
    · exact fun valid => ⟨⟨s⟩, parse_of_valid valid⟩
  · obtain ⟨valid, rfl⟩ := parse_eq_ok.mp parsed
    exact ⟨rfl, rfl, LeafPath.inverts valid⟩

example : IsPath "__inputs.\x7brow\x7d.0" := LeafPath.valid_iff.mp (by decide)

end Lumencast.Protocol
