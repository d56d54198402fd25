import Lumencast.Foundation.Fields
import Lumencast.Foundation.Success

/-!
# Reading back a written record

A record is written as an object and read back field by field. The rules say what
each field decoder answers for a field that was written by a matching encoder, for
any field lookup. They are stated for lookups rather than for field lists, so that
they apply behind an envelope and under a tag.
-/

namespace Lumencast.Foundation

universe u v

variable {α β : Type}

/-- Decoding what was encoded gives the value back. -/
def Decode.Inverts (decode : Value → Except JsonError α) (encode : α → Value) (a : α) : Prop :=
  decode (encode a) = .ok a

namespace Decode

@[simp] theorem string_inverts (s : String) : Inverts string .string s := rfl

@[simp] theorem bool_inverts (b : Bool) : Inverts bool .bool b := rfl

@[simp] theorem value_inverts (v : Value) : Inverts value id v := rfl

@[simp] theorem u64_inverts (n : Nat) : Inverts u64 (fun n => .number (.posInt n)) n := rfl

theorem u32_inverts {n : Nat} (fits : n < 2 ^ 32) :
    Inverts u32 (fun n => .number (.posInt n)) n := by
  change (if n < 2 ^ 32 then pure n else throw .outOfRange : Except JsonError Nat) = .ok n
  rw [if_pos fits]
  rfl

@[simp] theorem f64_inverts (q : ℚ) : Inverts f64 (fun q => .number (.float q)) q := rfl

theorem list_inverts {decode : Value → Except JsonError α} {encode : α → Value} {as : List α}
    (elements : ∀ a ∈ as, Inverts decode encode a) :
    Inverts (list decode) (fun as => .array (as.map encode)) as := by
  change (as.map encode).mapM decode = .ok as
  rw [mapM_eq_ok, List.forall₂_map_left_iff, List.forall₂_same]
  exact elements

variable {fields : String → Option Value} {name : String}

theorem required_of_eq {decode : Value → Except JsonError α} {encode : α → Value} {a : α}
    (inverts : Inverts decode encode a) (found : fields name = some (encode a)) :
    required fields name decode = .ok a := by
  rw [required, found]
  exact inverts

theorem required_string {s : String} (found : fields name = some (.string s)) :
    required fields name string = .ok s :=
  required_of_eq (string_inverts s) found

theorem required_eq_ok {decode : Value → Except JsonError α} {a : α} :
    required fields name decode = .ok a ↔ ∃ v, fields name = some v ∧ decode v = .ok a := by
  unfold required
  cases fields name <;> simp

theorem defaulted_of_none {decode : Value → Except JsonError α} (default : α)
    (absent : fields name = none) : defaulted fields name decode default = .ok default := by
  rw [defaulted, absent]

theorem defaulted_of_some {decode : Value → Except JsonError α} {encode : α → Value} {a : α}
    (default : α) (inverts : Inverts decode encode a) (found : fields name = some (encode a)) :
    defaulted fields name decode default = .ok a := by
  rw [defaulted, found]
  exact inverts

theorem option_of_ne_null {decode : Value → Except JsonError α} {v : Value} (present : v ≠ .null) :
    option decode v = (decode v).map some := by
  cases v with
  | null => exact absurd rfl present
  | _ => rfl

/-- An optional field is read back when no present value is written as `null`. -/
theorem optional_of_eq {decode : Value → Except JsonError α} {encode : α → Value} {o : Option α}
    (inverts : ∀ a ∈ o, Inverts decode encode a) (present : ∀ a ∈ o, encode a ≠ .null)
    (found : fields name = o.map encode) : optional fields name decode = .ok o := by
  cases o with
  | none => exact defaulted_of_none none found
  | some a =>
      have some_value : option decode (encode a) = .ok (some a) := by
        rw [option_of_ne_null (present a rfl), inverts a rfl]
        rfl
      rw [optional, defaulted, found]
      exact some_value

/-- A present optional field was decoded from a value. -/
theorem exists_of_optional {decode : Value → Except JsonError α} {a : α}
    (decoded : optional fields name decode = .ok (some a)) :
    ∃ v, fields name = some v ∧ decode v = .ok a := by
  unfold optional defaulted at decoded
  split at decoded
  · next v found =>
    unfold option at decoded
    split at decoded
    · cases decoded
    · obtain ⟨_, content, same⟩ := map_eq_ok.mp decoded
      cases same
      exact ⟨v, found, content⟩
  · cases decoded

/-- An optional field is read when it is absent, `null` or read by its decoder. -/
theorem optional_isOk_iff {decode : Value → Except JsonError α} :
    (∃ o, optional fields name decode = .ok o) ↔
      ∀ v, fields name = some v → v = .null ∨ ∃ a, decode v = .ok a := by
  unfold optional defaulted
  cases found : fields name with
  | none => simp
  | some v =>
      by_cases null : v = .null
      · simp [null, option]
      · simp [option_of_ne_null null, map_eq_ok, null]

theorem optional_string {o : Option String} (found : fields name = o.map .string) :
    optional fields name string = .ok o :=
  optional_of_eq (fun s _ => string_inverts s) (fun _ _ => nofun) found

/-- A list field, skipped when empty. -/
def writtenList (encode : α → Value) (as : List α) : Option Value :=
  if as.isEmpty then none else some (.array (as.map encode))

theorem defaulted_list {decode : Value → Except JsonError α} {encode : α → Value} {as : List α}
    (elements : ∀ a ∈ as, Inverts decode encode a) (found : fields name = writtenList encode as) :
    defaulted fields name (list decode) [] = .ok as := by
  cases as with
  | nil => exact defaulted_of_none [] found
  | cons a as => exact defaulted_of_some [] (list_inverts elements) found

/-! ## Writing back what was read -/

/-- Encoding what was decoded from `v` gives `v` back. -/
def Exact (decode : Value → Except JsonError α) (encode : α → Value) (v : Value) : Prop :=
  ∀ a, decode v = .ok a → encode a = v

theorem string_exact (v : Value) : Exact string .string v := by
  rintro s decoded
  cases v <;> cases decoded
  rfl

theorem value_exact (v : Value) : Exact value id v := by
  rintro w ⟨⟩
  rfl

theorem eq_some_of_required {decode : Value → Except JsonError α} {encode : α → Value} {a : α}
    (exact : ∀ v, Exact decode encode v) (decoded : required fields name decode = .ok a) :
    fields name = some (encode a) := by
  unfold required at decoded
  split at decoded
  · next v found => rw [found, exact v a decoded]
  · cases decoded

/-- No value of an optional field was `null`. -/
theorem ne_null_of_optional {o : Option Value} (decoded : optional fields name value = .ok o) :
    ∀ v ∈ o, v ≠ .null := by
  rintro v rfl rfl
  unfold optional defaulted at decoded
  split at decoded
  · next w _ => cases w <;> cases decoded
  · cases decoded

/-- An optional field is written back unless it was an explicit `null`. -/
theorem optional_exact_iff {decode : Value → Except JsonError α} {encode : α → Value}
    {o : Option α} (exact : ∀ v, Exact decode encode v)
    (decoded : optional fields name decode = .ok o) :
    o.map encode = fields name ↔ fields name ≠ some .null := by
  unfold optional defaulted at decoded
  cases found : fields name with
  | none =>
      rw [found] at decoded
      cases decoded
      simp
  | some v =>
      rw [found] at decoded
      by_cases null : v = .null
      · subst null
        cases decoded
        simp
      · simp only [option_of_ne_null null] at decoded
        obtain ⟨a, content, rfl⟩ := map_eq_ok.mp decoded
        simp [exact v a content, null]

theorem exact_iff_of_decoded {decode : Value → Except JsonError α} {encode : α → Value} {v : Value}
    {a : α} (decoded : decode v = .ok a) : Exact decode encode v ↔ encode a = v := by
  constructor
  · intro exact
    exact exact a decoded
  · intro same a' decoded'
    rw [decoded] at decoded'
    cases decoded'
    exact same

theorem map_eq_iff_exact (encode : α → Value) {decode : Value → Except JsonError α}
    {items : List Value} {as : List α} (decoded : List.Forall₂ (decode · = .ok ·) items as) :
    as.map encode = items ↔ ∀ v ∈ items, Exact decode encode v := by
  induction decoded with
  | nil => simp
  | cons head _ ih => simp [exact_iff_of_decoded head, ih]

/-- A list field is written back unless it was empty, when its elements are. -/
theorem list_exact_iff (encode : α → Value) {decode : Value → Except JsonError α} {as : List α}
    (decoded : defaulted fields name (list decode) [] = .ok as) :
    writtenList encode as = fields name ↔ fields name ≠ some (.array []) ∧
      ∀ v ∈ ((fields name).bind Value.asArray).getD [], Exact decode encode v := by
  unfold defaulted at decoded
  cases found : fields name with
  | none =>
      rw [found] at decoded
      cases decoded
      simp [writtenList]
  | some v =>
      rw [found] at decoded
      cases v with
      | array items =>
          have elements := map_eq_iff_exact encode (mapM_eq_ok.mp decoded)
          have length := (mapM_eq_ok.mp decoded).length_eq
          cases items with
          | nil =>
              obtain rfl : as = [] := List.eq_nil_of_length_eq_zero length.symm
              simp [writtenList]
          | cons v items =>
              have some_element : as.isEmpty = false := by
                cases as with
                | nil => cases length
                | cons => rfl
              show _ ↔ _ ∧ ∀ w ∈ v :: items, Exact decode encode w
              simpa [writtenList, some_element] using elements
      | null | bool | number | string | object => cases decoded

end Decode

/-- A written object is read by the names of its fields, the last one of a name first. -/
theorem exists_objectOf (fields : List (String × Value)) :
    ∃ content, objectOf fields = .object content ∧
      ∀ k, content.lookup k = fields.reverse.lookup k := by
  obtain ⟨content, written, _, read⟩ := exists_sorted_objectOf fields
  exact ⟨content, written, read⟩

/-- Under its tag a record is read behind the other fields. -/
theorem tagged_objectOf {fields : List (String × Value)} {key tag : String} {names : List String}
    (nested : Bool) (tagged : fields.reverse.lookup key = some (.string tag))
    (known : tag ∈ names) :
    ∃ content, Decode.tagged key names nested (objectOf fields) = .ok (tag, .object content) ∧
      ∀ k, k ≠ key → content.lookup k = fields.reverse.lookup k := by
  obtain ⟨content, written, read⟩ := exists_objectOf fields
  refine ⟨content.filter fun f => f.1 != key, ?_, fun k other => ?_⟩
  · rw [written, Decode.tagged, read, tagged]
    simp [Decode.tag, known, Except.map]
  · rw [lookup_filter_ne, if_neg other, read]

end Lumencast.Foundation
