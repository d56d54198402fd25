import Mathlib.Data.Rat.Defs
import Mathlib.Algebra.Order.Ring.Rat
import Mathlib.Tactic.Common

/-!
# JSON values and typed decoding

`Value` is a parsed JSON document. Objects are key-sorted field lists, as a
key-sorted map serialises them; `insertField` keeps them sorted. A float is the
exact rational value of a finite double.

The decoders follow the data model of a derived structural deserialiser: a
record may be given as an object or as an array of its fields in declaration
order, unknown object fields are ignored, `null` is the absent option, and a
unit variant is its name or a one-field object around a unit. The text layer
(bytes to values and back, and the rendering of errors and floats) is a
parameter, `TextLayer`.
-/

namespace Lumencast.Foundation

universe u

/-- A JSON number as the parser classifies it: unsigned, negative, or floating. -/
inductive Number where
  | posInt (n : Nat)
  | negInt (i : Int)
  | float (q : ℚ)
  deriving DecidableEq

inductive Value where
  | null
  | bool (b : Bool)
  | number (n : Number)
  | string (s : String)
  | array (items : List Value)
  | object (fields : List (String × Value))

mutual

private def Value.decEq : (a b : Value) → Decidable (a = b)
  | .null, .null => isTrue rfl
  | .bool a, .bool b => decidable_of_iff (a = b) (by simp)
  | .number a, .number b => decidable_of_iff (a = b) (by simp)
  | .string a, .string b => decidable_of_iff (a = b) (by simp)
  | .array a, .array b =>
      match decEqItems a b with
      | isTrue h => isTrue (by rw [h])
      | isFalse h => isFalse (by simpa using h)
  | .object a, .object b =>
      match decEqFields a b with
      | isTrue h => isTrue (by rw [h])
      | isFalse h => isFalse (by simpa using h)
  | .null, .bool _ | .null, .number _ | .null, .string _ | .null, .array _ | .null, .object _
  | .bool _, .null | .bool _, .number _ | .bool _, .string _ | .bool _, .array _
  | .bool _, .object _
  | .number _, .null | .number _, .bool _ | .number _, .string _ | .number _, .array _
  | .number _, .object _
  | .string _, .null | .string _, .bool _ | .string _, .number _ | .string _, .array _
  | .string _, .object _
  | .array _, .null | .array _, .bool _ | .array _, .number _ | .array _, .string _
  | .array _, .object _
  | .object _, .null | .object _, .bool _ | .object _, .number _ | .object _, .string _
  | .object _, .array _ => isFalse (by simp)

private def decEqItems : (a b : List Value) → Decidable (a = b)
  | [], [] => isTrue rfl
  | [], _ :: _ | _ :: _, [] => isFalse (by simp)
  | a :: as, b :: bs =>
      match Value.decEq a b, decEqItems as bs with
      | isTrue h, isTrue hs => isTrue (by rw [h, hs])
      | isFalse h, _ => isFalse (by simp [h])
      | _, isFalse hs => isFalse (by simp [hs])

private def decEqFields : (a b : List (String × Value)) → Decidable (a = b)
  | [], [] => isTrue rfl
  | [], _ :: _ | _ :: _, [] => isFalse (by simp)
  | (k, a) :: as, (l, b) :: bs =>
      match decEq k l, Value.decEq a b, decEqFields as bs with
      | isTrue hk, isTrue h, isTrue hs => isTrue (by rw [hk, h, hs])
      | isFalse hk, _, _ => isFalse (by simp [hk])
      | _, isFalse h, _ => isFalse (by simp [h])
      | _, _, isFalse hs => isFalse (by simp [hs])

end

instance : DecidableEq Value := Value.decEq

/-- Round an integer to the nearest double, ties to even. -/
def roundToDouble (i : Int) : ℚ :=
  let shift := i.natAbs.log2 - 52
  let quotient := i.natAbs >>> shift
  let rest := i.natAbs % 2 ^ shift
  let up := decide (2 ^ shift < 2 * rest) ||
    (2 * rest == 2 ^ shift && shift != 0 && quotient % 2 == 1)
  i.sign * ((quotient + if up then 1 else 0) * 2 ^ shift : Nat)

namespace Number

def asU64 : Number → Option Nat
  | .posInt n => some n
  | _ => none

def asF64 : Number → ℚ
  | .posInt n => roundToDouble n
  | .negInt i => roundToDouble i
  | .float q => q

end Number

namespace Value

def isObject : Value → Bool
  | .object _ => true
  | _ => false

def asObject : Value → Option (List (String × Value))
  | .object fields => some fields
  | _ => none

def asArray : Value → Option (List Value)
  | .array items => some items
  | _ => none

def asStr : Value → Option String
  | .string s => some s
  | _ => none

def asU64 : Value → Option Nat
  | .number n => n.asU64
  | _ => none

def asF64 : Value → Option ℚ
  | .number n => some n.asF64
  | _ => none

@[simp] theorem asObject_object (fields : List (String × Value)) :
    (object fields).asObject = some fields := rfl

end Value

/-- Insert into a key-sorted field list, replacing an equal key. -/
def insertField (key : String) (v : Value) : List (String × Value) → List (String × Value)
  | [] => [(key, v)]
  | (k, w) :: rest =>
      match compare key k with
      | .lt => (key, v) :: (k, w) :: rest
      | .eq => (key, v) :: rest
      | .gt => (k, w) :: insertField key v rest

/-- The object with the given fields, later ones replacing earlier ones. -/
def objectOf (fields : List (String × Value)) : Value :=
  .object (fields.foldl (fun acc f => insertField f.1 f.2 acc) [])

@[simp] theorem lookup_cons_ite (k key : String) (v : Value) (fields : List (String × Value)) :
    ((key, v) :: fields).lookup k = if k = key then some v else fields.lookup k := by
  by_cases h : k = key
  · simp [h]
  · simp [List.lookup_cons, beq_eq_false_iff_ne.mpr h, h]

theorem lookup_insertField (key k : String) (v : Value) (fields : List (String × Value)) :
    (insertField key v fields).lookup k = if k = key then some v else fields.lookup k := by
  induction fields with
  | nil => simp [insertField, lookup_cons_ite]
  | cons f rest ih =>
      obtain ⟨l, w⟩ := f
      unfold insertField
      split
      · rw [lookup_cons_ite]
      · next same =>
        have : key = l := Std.LawfulEqOrd.eq_of_compare same
        subst this
        simp only [lookup_cons_ite]
        split <;> rfl
      · next above =>
        have apart : key ≠ l := by
          rintro rfl
          rw [Std.ReflOrd.compare_self] at above
          cases above
        simp only [lookup_cons_ite, ih]
        by_cases hl : k = l
        · have : k ≠ key := fun h => apart (h ▸ hl)
          simp [hl, hl ▸ this]
        · simp [hl]

/-- Removing the fields of one key hides that key only. -/
theorem lookup_filter_ne (key k : String) (fields : List (String × Value)) :
    (fields.filter fun f => f.1 != key).lookup k = if k = key then none else fields.lookup k := by
  induction fields with
  | nil => simp
  | cons f rest ih =>
      obtain ⟨l, w⟩ := f
      by_cases removed : l = key
      · subst removed
        rw [List.filter_cons_of_neg (by simp), ih, lookup_cons_ite]
        by_cases h : k = l <;> simp [h]
      · rw [List.filter_cons_of_pos (by simpa using removed), lookup_cons_ite, lookup_cons_ite, ih]
        by_cases h : k = l
        · simp [h, removed]
        · simp [h]

/-- Looking a key up in a built object reads the last field with that key. -/
theorem lookup_foldl_insertField (fields acc : List (String × Value)) (k : String) :
    (fields.foldl (fun acc f => insertField f.1 f.2 acc) acc).lookup k =
      (fields.reverse.lookup k).or (acc.lookup k) := by
  induction fields generalizing acc with
  | nil => simp
  | cons f fields ih =>
      obtain ⟨key, v⟩ := f
      rw [List.foldl_cons, ih, lookup_insertField, List.reverse_cons, List.lookup_append,
        Option.or_assoc, lookup_cons_ite]
      by_cases h : k = key <;> simp [h]

/-- Why a typed decoding failed. -/
inductive JsonError where
  | syntaxError (text : String)
  | missingField (name : String)
  | unknownVariant (name : String)
  | invalidType
  | invalidLength
  | outOfRange
  | custom (message : String)
  deriving DecidableEq, Repr

/-- The parts of the text layer that the values do not determine. -/
structure TextLayer (Text : Type u) where
  /-- Serialise a value without insignificant whitespace. -/
  toText : Value → Text
  fromText : Text → Except JsonError Value
  /-- The rendering of a decoding error. -/
  showError : JsonError → String
  /-- The shortest decimal rendering of a double. -/
  showFloat : ℚ → String

/-- The text of the value is parsed to the value. -/
def TextLayer.ReadsBack {Text : Type u} (T : TextLayer Text) (v : Value) : Prop :=
  T.fromText (T.toText v) = .ok v

namespace Decode

def string : Value → Except JsonError String
  | .string s => .ok s
  | _ => .error .invalidType

def bool : Value → Except JsonError Bool
  | .bool b => .ok b
  | _ => .error .invalidType

def u64 : Value → Except JsonError Nat
  | .number (.posInt n) => .ok n
  | .number (.negInt _) => .error .outOfRange
  | _ => .error .invalidType

def u32 (v : Value) : Except JsonError Nat := do
  let n ← u64 v
  if n < 2 ^ 32 then return n else throw .outOfRange

def f64 : Value → Except JsonError ℚ
  | .number n => .ok n.asF64
  | _ => .error .invalidType

def value (v : Value) : Except JsonError Value := .ok v

variable {α : Type}

def option (decode : Value → Except JsonError α) : Value → Except JsonError (Option α)
  | .null => .ok none
  | v => (decode v).map some

def list (decode : Value → Except JsonError α) : Value → Except JsonError (List α)
  | .array items => items.mapM decode
  | _ => .error .invalidType

/-- The field lookup of a record with the given field names, given as an object
or as an array of its leading fields. -/
def record (names : List String) : Value → Except JsonError (String → Option Value)
  | .object fields => .ok fun name => fields.lookup name
  | .array items =>
      if items.length ≤ names.length then .ok fun name => (names.zip items).lookup name
      else .error .invalidLength
  | _ => .error .invalidType

def required (fields : String → Option Value) (name : String)
    (decode : Value → Except JsonError α) : Except JsonError α :=
  match fields name with
  | some v => decode v
  | none => .error (.missingField name)

/-- A field that falls back to `default` when it is missing. -/
def defaulted (fields : String → Option Value) (name : String)
    (decode : Value → Except JsonError α) (default : α) : Except JsonError α :=
  match fields name with
  | some v => decode v
  | none => .ok default

def optional (fields : String → Option Value) (name : String)
    (decode : Value → Except JsonError α) : Except JsonError (Option α) :=
  defaulted fields name (option decode) none

/-- A variant name. Inside an already tagged value a variant may also be given by
its index. -/
def tag (names : List String) (nested : Bool) : Value → Except JsonError String
  | .string name => if name ∈ names then .ok name else .error (.unknownVariant name)
  | .number (.posInt i) =>
      if nested then names[i]?.elim (.error .outOfRange) .ok else .error .invalidType
  | _ => .error .invalidType

/-- The variant name and the content of an internally tagged variant. -/
def tagged (key : String) (names : List String) (nested : Bool) :
    Value → Except JsonError (String × Value)
  | .object fields =>
      match fields.lookup key with
      | some v => (tag names nested v).map (·, .object (fields.filter fun f => f.1 != key))
      | none => .error (.missingField key)
  | .array (v :: rest) => (tag names nested v).map (·, .array rest)
  | .array [] => .error (.missingField key)
  | _ => .error .invalidType

/-- The content of a unit variant. -/
def unit : Value → Except JsonError Unit
  | .null | .object [] => .ok ()
  | _ => .error .invalidType

/-- A value of an enumeration without data, by its variant names. -/
def variant (names : List (String × α)) : Value → Except JsonError α
  | .string name => (names.lookup name).elim (.error (.unknownVariant name)) .ok
  | .object [(name, content)] => do
      let a ← (names.lookup name).elim (.error (.unknownVariant name)) .ok
      unit content
      return a
  | _ => .error .invalidType

end Decode
end Lumencast.Foundation
