import Lumencast.Foundation.Position
import Lumencast.Foundation.Success
import Lumencast.Foundation.Text

/-!
# The structural matcher of the conformance player

An expected document matches an actual one that has every key of it with a
matching value; the actual document may have more keys. Two sentinels stand for
any value and for any content hash. Without sentinels the matcher is the order
of documents by added keys, and a sentinel is as good as the value it stands for.

The rendering of a document in an error text is a parameter.
-/

namespace Lumencast.Conformance

open Foundation Relation

def isAsciiHexdigit (c : Char) : Bool :=
  ('0' ≤ c && c ≤ '9') || ('A' ≤ c && c ≤ 'F') || ('a' ≤ c && c ≤ 'f')

def isSha256Hash (s : String) : Bool :=
  match stripPrefix "sha256:".toList s.toList with
  | none => false
  | some hex => (bytes hex).length == 64 && hex.all isAsciiHexdigit

section Matcher

variable (display : Value → String)

/-- The two last arms of the match: documents that are not taken apart are compared. -/
def matchEqual (expected actual : Value) : Except String Unit :=
  if expected = actual then .ok ()
  else .error ("expected " ++ display expected ++ ", got " ++ display actual)

def matchHash (actual : Value) : Except String Unit :=
  match actual.asStr with
  | none => .error ("$ANY_HASH expects a string, got " ++ display actual)
  | some s =>
      if !isSha256Hash s then .error ("$ANY_HASH does not match " ++ debugStr s) else .ok ()

mutual

def structuralMatch : Value → Value → Except String Unit
  | .string s, actual =>
      if s = "$ANY" then .ok ()
      else if s = "$ANY_HASH" then matchHash display actual
      else matchEqual display (.string s) actual
  | .object e, .object a => matchFields e a
  | .array e, .array a =>
      if e.length ≠ a.length then
        .error ("array length mismatch: " ++ toString e.length ++ " vs " ++ toString a.length)
      else matchItems 0 e a
  | e, a => matchEqual display e a

/-- The loop over the fields of an expected object. -/
def matchFields : List (String × Value) → List (String × Value) → Except String Unit
  | [], _ => .ok ()
  | (k, ev) :: rest, a =>
      match a.lookup k with
      | none => .error ("missing key " ++ debugStr k)
      | some av => do
          (structuralMatch ev av).mapError fun inner => k ++ ": " ++ inner
          matchFields rest a

/-- The loop over the pairs of two arrays, the next one at index `i`. -/
def matchItems : Nat → List Value → List Value → Except String Unit
  | i, ev :: e, av :: a => do
      (structuralMatch ev av).mapError fun inner => "[" ++ toString i ++ "]: " ++ inner
      matchItems (i + 1) e a
  | _, _, _ => .ok ()

end

end Matcher

/-- The matcher accepts. -/
def Matches (display : Value → String) (e a : Value) : Prop := structuralMatch display e a = .ok ()

instance (display : Value → String) (e a : Value) : Decidable (Matches display e a) :=
  inferInstanceAs (Decidable (structuralMatch display e a = .ok ()))

variable {display : Value → String}

theorem matchFields_eq_ok {e a : List (String × Value)} :
    matchFields display e a = .ok () ↔
      ∀ f ∈ e, ∃ v, a.lookup f.1 = some v ∧ Matches display f.2 v := by
  induction e with
  | nil => simp [matchFields]
  | cons f rest ih =>
      obtain ⟨k, ev⟩ := f
      rw [matchFields, List.forall_mem_cons]
      cases found : a.lookup k with
      | none => simp
      | some av => simp [check_bind_eq_ok, mapError_eq_ok, ih, Matches]

theorem matchItems_eq_ok {i : Nat} {e a : List Value} (length : e.length = a.length) :
    matchItems display i e a = .ok () ↔ List.Forall₂ (Matches display) e a := by
  induction e generalizing i a with
  | nil =>
      obtain rfl := List.length_eq_zero_iff.mp length.symm
      simp [matchItems]
  | cons ev e ih =>
      obtain ⟨av, a, rfl⟩ := List.exists_cons_of_length_eq_add_one length.symm
      rw [matchItems, check_bind_eq_ok, mapError_eq_ok, ih (Nat.succ.inj length),
        List.forall₂_cons, Matches]

/-- The strings that stand for other values in an expected document. -/
def IsSentinel (s : String) : Prop := s = "$ANY" ∨ s = "$ANY_HASH"

instance : DecidablePred IsSentinel := fun _ => inferInstanceAs (Decidable (_ ∨ _))

theorem matchEqual_eq_ok {e a : Value} : matchEqual display e a = .ok () ↔ e = a := by
  by_cases same : e = a <;> simp [matchEqual, same]

theorem matches_object_iff {fields fields' : List (String × Value)} (sorted : KeySorted fields) :
    Matches display (.object fields) (.object fields') ↔
      ∀ s ev, (Value.object fields).child s = some ev →
        ∃ av, (Value.object fields').child s = some av ∧ Matches display ev av := by
  rw [Matches, structuralMatch, matchFields_eq_ok]
  constructor
  · intro each s ev found
    cases s with
    | item i => cases found
    | key k => exact each (k, ev) (sorted.mem_iff_lookup.mpr found)
  · intro each f member
    exact each (.key f.1) f.2 (sorted.mem_iff_lookup.mp member)

theorem matches_array_iff {items items' : List Value} :
    Matches display (.array items) (.array items') ↔
      items.length = items'.length ∧ ∀ s ev, (Value.array items).child s = some ev →
        ∃ av, (Value.array items').child s = some av ∧ Matches display ev av := by
  rw [Matches, structuralMatch, ite_error_eq_ok, not_not]
  refine and_congr_right fun length => ?_
  rw [matchItems_eq_ok length, List.forall₂_iff_get, and_iff_right length]
  constructor
  · intro each s ev found
    cases s with
    | key k => cases found
    | item i =>
        obtain ⟨bound, rfl⟩ := List.getElem?_eq_some_iff.mp found
        exact ⟨_, List.getElem?_eq_getElem (length ▸ bound), each i bound (length ▸ bound)⟩
  · intro each i bound bound'
    obtain ⟨av, found, matched⟩ := each (.item i) _ (List.getElem?_eq_getElem bound)
    obtain ⟨_, rfl⟩ := List.getElem?_eq_some_iff.mp found
    exact matched

/-- What the matcher accepts, one level at a time. -/
theorem matches_iff {e a : Value} (sorted : ∀ fields, e = .object fields → KeySorted fields)
    (plain : ∀ s, e = .string s → ¬IsSentinel s) :
    Matches display e a ↔ SameShape e a ∧
      ∀ s ev, e.child s = some ev → ∃ av, a.child s = some av ∧ Matches display ev av := by
  have scalar (alone : ∀ s, e.child s = none) (equal : Matches display e a ↔ e = a)
      (shape : SameShape e a ↔ e = a) : Matches display e a ↔ SameShape e a ∧
        ∀ s ev, e.child s = some ev → ∃ av, a.child s = some av ∧ Matches display ev av := by
    rw [equal, shape]
    refine (and_iff_left fun s ev found => ?_).symm
    rw [alone s] at found
    cases found
  cases e with
  | object fields =>
      cases a with
      | object fields' =>
          rw [matches_object_iff (sorted fields rfl)]
          exact (and_iff_right trivial).symm
      | null | bool | number | string | array =>
          simp [Matches, structuralMatch, matchEqual_eq_ok, SameShape]
  | array items =>
      cases a with
      | array items' => exact matches_array_iff
      | null | bool | number | string | object =>
          simp [Matches, structuralMatch, matchEqual_eq_ok, SameShape]
  | string s =>
      have other := not_or.mp (plain s rfl)
      refine scalar (fun s => by cases s <;> rfl) ?_ (by simp [SameShape])
      rw [Matches, structuralMatch, if_neg other.1, if_neg other.2, matchEqual_eq_ok]
  | null | bool | number =>
      refine scalar (fun s => by cases s <;> rfl) ?_ (by simp [SameShape])
      simp [Matches, structuralMatch, matchEqual_eq_ok]

theorem matches_iff_of_isSorted {e a : Value} (sorted : e.isSorted = true)
    (plain : ∀ s, e = .string s → ¬IsSentinel s) :
    Matches display e a ↔ SameShape e a ∧
      ∀ s ev, e.child s = some ev → ∃ av, a.child s = some av ∧ Matches display ev av :=
  matches_iff (fun _ eq => Value.keySorted_of_isSorted (eq ▸ sorted)) plain

theorem matches_any (a : Value) : Matches display (.string "$ANY") a := by
  rw [Matches, structuralMatch, if_pos rfl]

theorem matches_anyHash_iff {a : Value} :
    Matches display (.string "$ANY_HASH") a ↔ ∃ s, a = .string s ∧ isSha256Hash s = true := by
  have other : "$ANY_HASH" ≠ "$ANY" := by decide
  rw [Matches, structuralMatch, if_neg other, if_pos rfl, matchHash]
  cases a with
  | string s => simp [Value.asStr]
  | _ => simp [Value.asStr]

/-- No string value of the document is a sentinel. -/
def Plain (v : Value) : Prop := ∀ path s, v.atPath path = some (.string s) → ¬IsSentinel s

namespace Plain

variable {v w : Value}

theorem here (plain : Plain v) (s : String) (eq : v = .string s) : ¬IsSentinel s :=
  plain [] s (by rw [eq, Value.atPath_nil])

theorem child (plain : Plain v) {s : Step} (found : v.child s = some w) : Plain w := by
  intro path t at_path
  refine plain (s :: path) t ?_
  rw [Value.atPath_cons, found, Option.bind_some, at_path]

end Plain

theorem matches_refl {e : Value} (sorted : e.isSorted = true) (plain : Plain e) :
    Matches display e e := by
  induction e using Value.child_induction with
  | step e ih =>
      refine (matches_iff_of_isSorted sorted plain.here).mpr ⟨?_, fun s ev found => ?_⟩
      · cases e <;> first | rfl | trivial
      · exact ⟨ev, found, ih s ev found (Value.isSorted_child sorted found) (plain.child found)⟩

/-- What matches still does when keys are added. -/
theorem Matches.addsKey {e a b : Value} (sorted : e.isSorted = true) (matched : Matches display e a)
    (adds : AddsKey a b) : Matches display e b := by
  induction e using Value.child_induction generalizing a b with
  | step e ih =>
      by_cases sentinel : ∃ s, e = .string s ∧ IsSentinel s
      · obtain ⟨s, rfl, rfl | rfl⟩ := sentinel
        · exact matches_any b
        · obtain ⟨s, rfl, -⟩ := matches_anyHash_iff.mp matched
          cases adds
      · have plain (s : String) (eq : e = .string s) : ¬IsSentinel s :=
          fun is => sentinel ⟨s, eq, is⟩
        rw [matches_iff_of_isSorted sorted plain] at matched ⊢
        obtain ⟨shape, children⟩ := matched
        refine ⟨adds.sameShape shape, fun s ev found => ?_⟩
        obtain ⟨av, found', below⟩ := children s ev found
        obtain ⟨bv, kept, same | grown⟩ := adds.child found'
        · exact ⟨bv, kept, same ▸ below⟩
        · exact ⟨bv, kept, ih s ev found (Value.isSorted_child sorted found) below grown⟩

theorem matches_of_addsKeys {e a : Value} (sorted : e.isSorted = true) (plain : Plain e)
    (grown : ReflTransGen AddsKey e a) : Matches display e a := by
  induction grown with
  | refl => exact matches_refl sorted plain
  | tail _ last ih => exact ih.addsKey sorted last

/-- Without sentinels the matcher is the order by added keys. -/
theorem matches_iff_addsKeys {e a : Value} (sorted : e.isSorted = true) (plain : Plain e)
    (sorted' : a.isSorted = true) : Matches display e a ↔ ReflTransGen AddsKey e a := by
  refine ⟨fun matched => ?_, matches_of_addsKeys sorted plain⟩
  induction e using Value.child_induction generalizing a with
  | step e ih =>
      obtain ⟨shape, children⟩ := (matches_iff_of_isSorted sorted plain.here).mp matched
      refine AddsKey.of_children sorted sorted' shape fun s ev found => ?_
      obtain ⟨av, found', below⟩ := children s ev found
      exact ⟨av, found', ih s ev found (Value.isSorted_child sorted found) (plain.child found)
        (Value.isSorted_child sorted' found') below⟩

theorem matches_antisymm {e a : Value} (sorted : e.isSorted = true) (plain : Plain e)
    (sorted' : a.isSorted = true) (plain' : Plain a) (matched : Matches display e a)
    (matched' : Matches display a e) : e = a := by
  induction e using Value.child_induction generalizing a with
  | step e ih =>
      obtain ⟨shape, children⟩ := (matches_iff_of_isSorted sorted plain.here).mp matched
      obtain ⟨-, children'⟩ := (matches_iff_of_isSorted sorted' plain'.here).mp matched'
      refine shape.ext sorted sorted' fun s => ?_
      cases found : e.child s with
      | none =>
          cases found' : a.child s with
          | none => rfl
          | some av =>
              obtain ⟨ev, here, -⟩ := children' s av found'
              rw [found] at here
              cases here
      | some ev =>
          obtain ⟨av, found', below⟩ := children s ev found
          obtain ⟨ev', here, below'⟩ := children' s av found'
          obtain rfl : ev = ev' := Option.some.inj (found.symm.trans here)
          rw [found', ih s ev found (Value.isSorted_child sorted found) (plain.child found)
            (Value.isSorted_child sorted' found') (plain'.child found') below below']

mutual

/-- An expected document with every sentinel replaced by the value that `actual` has at the
same position, read from the node at `path` on. -/
def fillFrom (actual : Value) (path : List Step) : Value → Value
  | .string s => if IsSentinel s then (actual.atPath path).getD (.string s) else .string s
  | .object fields => .object (fillFields actual path fields)
  | .array items => .array (fillItems actual path 0 items)
  | v => v

def fillFields (actual : Value) (path : List Step) :
    List (String × Value) → List (String × Value)
  | [] => []
  | (k, v) :: rest =>
      (k, fillFrom actual (path ++ [.key k]) v) :: fillFields actual path rest

def fillItems (actual : Value) (path : List Step) : Nat → List Value → List Value
  | _, [] => []
  | i, v :: rest => fillFrom actual (path ++ [.item i]) v :: fillItems actual path (i + 1) rest

end

def fill (e actual : Value) : Value := fillFrom actual [] e

/-- Every sentinel position of the expected document exists in the actual one, and where a
content hash is expected there is the text of one. -/
def SentinelsHold (e a : Value) : Prop :=
  ∀ path s, e.atPath path = some (.string s) → IsSentinel s →
    (∃ v, a.atPath path = some v) ∧
      (s = "$ANY_HASH" → ∃ t, a.atPath path = some (.string t) ∧ isSha256Hash t = true)

section Filling

variable {actual : Value} {path : List Step}

theorem lookup_fillFields (fields : List (String × Value)) (k : String) :
    (fillFields actual path fields).lookup k =
      (fields.lookup k).map (fillFrom actual (path ++ [.key k])) := by
  induction fields with
  | nil => rfl
  | cons f rest ih =>
      obtain ⟨l, v⟩ := f
      rw [fillFields, lookup_cons_ite, lookup_cons_ite, ih]
      split
      · next same => rw [same, Option.map_some]
      · rfl

theorem map_fst_fillFields (fields : List (String × Value)) :
    (fillFields actual path fields).map Prod.fst = fields.map Prod.fst := by
  induction fields with
  | nil => rfl
  | cons f rest ih => rw [fillFields, List.map_cons, List.map_cons, ih]

theorem keySorted_fillFields {fields : List (String × Value)} (sorted : KeySorted fields) :
    KeySorted (fillFields actual path fields) := by
  have keys := @map_fst_fillFields actual path fields
  unfold KeySorted at sorted ⊢
  rw [← List.pairwise_map (R := fun k l => compare k l = .lt)] at sorted ⊢
  rwa [keys]

theorem getElem?_fillItems (i : Nat) (items : List Value) (j : Nat) :
    (fillItems actual path i items)[j]? =
      items[j]?.map (fillFrom actual (path ++ [.item (i + j)])) := by
  induction items generalizing i j with
  | nil => rfl
  | cons v rest ih =>
      rw [fillItems]
      cases j with
      | zero => rfl
      | succ j =>
          rw [List.getElem?_cons_succ, List.getElem?_cons_succ, ih, Nat.add_right_comm]
          rfl

theorem length_fillItems (i : Nat) (items : List Value) :
    (fillItems actual path i items).length = items.length := by
  induction items generalizing i with
  | nil => rfl
  | cons v rest ih => rw [fillItems, List.length_cons, List.length_cons, ih]

theorem child_fillFrom {e : Value} (plain : ∀ s, e = .string s → ¬IsSentinel s) (s : Step) :
    (fillFrom actual path e).child s = (e.child s).map (fillFrom actual (path ++ [s])) := by
  cases e with
  | object fields =>
      rw [fillFrom]
      cases s with
      | key k => exact lookup_fillFields fields k
      | item i => rfl
  | array items =>
      rw [fillFrom]
      cases s with
      | key k => rfl
      | item i =>
          rw [Value.child, getElem?_fillItems, Nat.zero_add]
          rfl
  | string t =>
      rw [fillFrom, if_neg (plain t rfl)]
      cases s <;> rfl
  | null | bool | number => cases s <;> rfl

theorem sameShape_fillFrom_iff {e a : Value} (plain : ∀ s, e = .string s → ¬IsSentinel s) :
    SameShape (fillFrom actual path e) a ↔ SameShape e a := by
  cases e with
  | object fields => cases a <;> simp [fillFrom, SameShape]
  | array items => cases a <;> simp [fillFrom, SameShape, length_fillItems]
  | string t => rw [fillFrom, if_neg (plain t rfl)]
  | null | bool | number => rw [fillFrom] <;> simp

theorem matches_fillFrom_iff {e a : Value} (sorted : e.isSorted = true)
    (plain : ∀ s, e = .string s → ¬IsSentinel s) :
    Matches display (fillFrom actual path e) a ↔ SameShape e a ∧
      ∀ s ev, e.child s = some ev → ∃ av, a.child s = some av ∧
        Matches display (fillFrom actual (path ++ [s]) ev) av := by
  have sorted' (fields : List (String × Value)) (eq : fillFrom actual path e = .object fields) :
      KeySorted fields := by
    cases e with
    | object fields' =>
        rw [fillFrom, Value.object.injEq] at eq
        exact eq ▸ keySorted_fillFields (Value.keySorted_of_isSorted sorted)
    | string t =>
        rw [fillFrom, if_neg (plain t rfl)] at eq
        cases eq
    | null | bool | number | array => cases eq
  have plain' (s : String) (eq : fillFrom actual path e = .string s) : ¬IsSentinel s := by
    cases e with
    | string t =>
        rw [fillFrom, if_neg (plain t rfl)] at eq
        exact plain s eq
    | null | bool | number | array | object => cases eq
  rw [matches_iff sorted' plain', sameShape_fillFrom_iff plain]
  refine and_congr_right fun _ => ?_
  simp only [child_fillFrom plain, Option.map_eq_some_iff]
  constructor
  · intro each s ev found
    exact each s _ ⟨ev, found, rfl⟩
  · rintro each s _ ⟨ev, found, rfl⟩
    exact each s ev found

end Filling

theorem sentinelsHold_of_children {e a : Value} (plain : ∀ s, e = .string s → ¬IsSentinel s)
    (children : ∀ s ev, e.child s = some ev →
      ∃ av, a.child s = some av ∧ SentinelsHold ev av) : SentinelsHold e a := by
  intro path t at_path is
  cases path with
  | nil => exact absurd is (plain t (Option.some.inj at_path))
  | cons s path =>
      rw [Value.atPath_cons, Option.bind_eq_some_iff] at at_path
      obtain ⟨ev, found, at_path⟩ := at_path
      obtain ⟨av, found', holds⟩ := children s ev found
      simp only [Value.atPath_cons, found', Option.bind_some]
      exact holds path t at_path is

theorem SentinelsHold.child {e a ev av : Value} {s : Step} (holds : SentinelsHold e a)
    (found : e.child s = some ev) (found' : a.child s = some av) : SentinelsHold ev av := by
  intro path t at_path is
  have here := holds (s :: path) t (by rw [Value.atPath_cons, found, Option.bind_some, at_path]) is
  simpa only [Value.atPath_cons, found', Option.bind_some] using here

/-- A sentinel alone holds exactly where it matches. -/
theorem sentinelsHold_string_iff {s : String} (is : IsSentinel s) {a : Value} :
    SentinelsHold (.string s) a ↔ Matches display (.string s) a := by
  have position (path : List Step) (t : String)
      (at_path : (Value.string s).atPath path = some (.string t)) : path = [] ∧ s = t := by
    cases path with
    | nil => exact ⟨rfl, by simpa using at_path⟩
    | cons step path => cases step <;> simp [Value.child] at at_path
  constructor
  · intro holds
    obtain ⟨-, hash⟩ := holds [] s rfl is
    rcases is with rfl | rfl
    · exact matches_any a
    · obtain ⟨t, at_path, hashed⟩ := hash rfl
      exact matches_anyHash_iff.mpr ⟨t, Option.some.inj at_path, hashed⟩
  · intro matched path t at_path _
    obtain ⟨rfl, rfl⟩ := position path t at_path
    refine ⟨⟨a, rfl⟩, ?_⟩
    rintro rfl
    obtain ⟨t, rfl, hashed⟩ := matches_anyHash_iff.mp matched
    exact ⟨t, rfl, hashed⟩

/-- A sentinel is as good as the value it stands for. -/
theorem matches_iff_fillFrom {actual e a : Value} {path : List Step}
    (here : actual.atPath path = some a) (sorted : e.isSorted = true) (sorted' : a.isSorted = true)
    (plain' : Plain a) :
    Matches display e a ↔ SentinelsHold e a ∧ Matches display (fillFrom actual path e) a := by
  induction e using Value.child_induction generalizing a path with
  | step e ih =>
      by_cases sentinel : ∃ s, e = .string s ∧ IsSentinel s
      · obtain ⟨s, rfl, is⟩ := sentinel
        have filled : fillFrom actual path (.string s) = a := by
          rw [fillFrom, if_pos is, here, Option.getD_some]
        rw [filled, and_iff_left (matches_refl sorted' plain')]
        exact (sentinelsHold_string_iff is).symm
      · have plain (s : String) (eq : e = .string s) : ¬IsSentinel s :=
          fun is => sentinel ⟨s, eq, is⟩
        have child (s : Step) (ev av : Value) (found : e.child s = some ev)
            (found' : a.child s = some av) : Matches display ev av ↔ SentinelsHold ev av ∧
              Matches display (fillFrom actual (path ++ [s]) ev) av := by
          refine ih s ev found ?_ (Value.isSorted_child sorted found)
            (Value.isSorted_child sorted' found') (plain'.child found')
          rw [Value.atPath_append, here, Option.bind_some, Value.atPath_cons, found']
          rfl
        rw [matches_iff_of_isSorted sorted plain, matches_fillFrom_iff sorted plain]
        constructor
        · rintro ⟨shape, children⟩
          refine ⟨sentinelsHold_of_children plain fun s ev found => ?_, shape,
            fun s ev found => ?_⟩
          · obtain ⟨av, found', below⟩ := children s ev found
            exact ⟨av, found', ((child s ev av found found').mp below).1⟩
          · obtain ⟨av, found', below⟩ := children s ev found
            exact ⟨av, found', ((child s ev av found found').mp below).2⟩
        · rintro ⟨holds, shape, children⟩
          refine ⟨shape, fun s ev found => ?_⟩
          obtain ⟨av, found', below⟩ := children s ev found
          exact ⟨av, found', (child s ev av found found').mpr ⟨holds.child found found', below⟩⟩

theorem toNat_lt_of_isAsciiHexdigit {c : Char} (digit : isAsciiHexdigit c = true) :
    c.toNat < 128 := by
  simp only [isAsciiHexdigit, Bool.or_eq_true, Bool.and_eq_true, decide_eq_true_eq] at digit
  have le : c ≤ 'f' := by
    rcases digit with (⟨-, le⟩ | ⟨-, le⟩) | ⟨-, le⟩
    · exact Char.le_trans le (by decide)
    · exact Char.le_trans le (by decide)
    · exact le
  have bound : c.toNat ≤ 'f'.toNat := UInt32.le_iff_toNat_le.mp le
  exact Nat.lt_of_le_of_lt bound (by decide)

/-- A content hash is `sha256:` and 64 hexadecimal digits. -/
theorem isSha256Hash_iff {s : String} :
    isSha256Hash s = true ↔ ∃ hex : List Char, s.toList = "sha256:".toList ++ hex ∧
      hex.length = 64 ∧ ∀ c ∈ hex, isAsciiHexdigit c = true := by
  have test (hex : List Char) : ((bytes hex).length == 64 && hex.all isAsciiHexdigit) = true ↔
      hex.length = 64 ∧ ∀ c ∈ hex, isAsciiHexdigit c = true := by
    rw [Bool.and_eq_true, beq_iff_eq, List.all_eq_true]
    refine and_congr_left fun all => ?_
    rw [length_bytes_of_ascii fun c member => toNat_lt_of_isAsciiHexdigit (all c member)]
  unfold isSha256Hash
  cases stripped : stripPrefix "sha256:".toList s.toList with
  | none =>
      refine iff_of_false (by simp) ?_
      rintro ⟨hex, eq, -⟩
      rw [stripPrefix_eq_some.mpr eq] at stripped
      cases stripped
  | some hex =>
      have eq := stripPrefix_eq_some.mp stripped
      constructor
      · intro accepted
        exact ⟨hex, eq, (test hex).mp accepted⟩
      · rintro ⟨hex', eq', digits⟩
        rw [eq, List.append_cancel_left_eq] at eq'
        exact (test hex).mpr (eq' ▸ digits)

/-- A document of the map type, without sentinels. -/
structure PlainJson where
  value : Value
  sorted : value.isSorted = true
  plain : Plain value

/-- The matcher is a partial order by added keys with wildcards. -/
theorem structuralMatch_exact (display : Value → String) :
    ((∀ e : PlainJson, Matches display e.value e.value) ∧
        (∀ e a b : PlainJson, Matches display e.value a.value → Matches display a.value b.value →
          Matches display e.value b.value) ∧
        (∀ e a : PlainJson, Matches display e.value a.value → Matches display a.value e.value →
          e.value = a.value) ∧
        (∀ e a : PlainJson, Matches display e.value a.value ↔
          ReflTransGen AddsKey e.value a.value) ∧
        ∀ (e a : PlainJson) (b : Value), Matches display e.value a.value → AddsKey a.value b →
          Matches display e.value b) ∧
      ∀ (e : Value) (a : PlainJson), e.isSorted = true →
        (Matches display e a.value ↔
          (∀ path s, e.atPath path = some (.string s) → IsSentinel s →
            ∃ v, a.value.atPath path = some v) ∧
          (∀ path, e.atPath path = some (.string "$ANY_HASH") →
            ∃ t hex, a.value.atPath path = some (.string t) ∧
              t.toList = "sha256:".toList ++ hex ∧ hex.length = 64 ∧
              ∀ c ∈ hex, isAsciiHexdigit c = true) ∧
          Matches display (fill e a.value) a.value) := by
  have order (e a : PlainJson) :
      Matches display e.value a.value ↔ ReflTransGen AddsKey e.value a.value :=
    matches_iff_addsKeys e.sorted e.plain a.sorted
  refine ⟨⟨fun e => matches_refl e.sorted e.plain, fun e a b first second => ?_,
    fun e a => matches_antisymm e.sorted e.plain a.sorted a.plain, order,
    fun e a b matched adds => matched.addsKey e.sorted adds⟩, fun e a sorted => ?_⟩
  · rw [order] at first second ⊢
    exact first.trans second
  · rw [@matches_iff_fillFrom display a.value e a.value [] rfl sorted a.sorted a.plain, fill,
      ← and_assoc]
    refine and_congr_left fun _ => ?_
    constructor
    · intro holds
      refine ⟨fun path s at_path is => (holds path s at_path is).1, fun path at_path => ?_⟩
      obtain ⟨t, found, hashed⟩ := (holds path _ at_path (.inr rfl)).2 rfl
      obtain ⟨hex, text⟩ := isSha256Hash_iff.mp hashed
      exact ⟨t, hex, found, text⟩
    · rintro ⟨exist, hashes⟩ path s at_path is
      refine ⟨exist path s at_path is, ?_⟩
      rintro rfl
      obtain ⟨t, hex, found, text⟩ := hashes path at_path
      exact ⟨t, found, isSha256Hash_iff.mpr ⟨hex, text⟩⟩

example : Matches (fun _ => "") (objectOf [("a", .string "$ANY")])
    (objectOf [("a", .null), ("b", .bool true)]) := by decide

end Lumencast.Conformance
