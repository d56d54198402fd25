import Mathlib.Data.List.Sort
import Lumencast.Foundation.Json
import Lumencast.Foundation.Overwrite

/-!
# Key-sorted documents

A key-sorted map is serialised as a field list whose keys increase, so two such
lists are equal as soon as their lookups are. `Value.Sorted` says this of every
object in a document.
-/

namespace Lumencast.Foundation

/-- The keys of a field list increase strictly. -/
def KeySorted (fields : List (String × Value)) : Prop :=
  fields.Pairwise fun f g => compare f.1 g.1 = .lt

instance : DecidablePred KeySorted := fun fields =>
  inferInstanceAs (Decidable (fields.Pairwise _))

namespace KeySorted

variable {fields fields' : List (String × Value)}

theorem nil : KeySorted [] := List.Pairwise.nil

theorem mem_iff_lookup (sorted : KeySorted fields) {k : String} {v : Value} :
    (k, v) ∈ fields ↔ fields.lookup k = some v := by
  induction fields with
  | nil => simp
  | cons f rest ih =>
      obtain ⟨l, w⟩ := f
      obtain ⟨above, rest_sorted⟩ := List.pairwise_cons.mp sorted
      rw [List.mem_cons, lookup_cons_ite, ih rest_sorted]
      by_cases same : k = l
      · subst same
        have absent : rest.lookup k ≠ some v := fun found => by
          have below := above _ ((ih rest_sorted).mpr found)
          rw [Std.ReflOrd.compare_self] at below
          cases below
        simp [absent, eq_comm]
      · simp [same]

theorem lookup_tail_eq_none {f : String × Value} (sorted : KeySorted (f :: fields)) :
    fields.lookup f.1 = none := by
  obtain ⟨above, rest⟩ := List.pairwise_cons.mp sorted
  cases found : fields.lookup f.1 with
  | none => rfl
  | some v =>
      have below := above _ ((mem_iff_lookup rest).mpr found)
      rw [Std.ReflOrd.compare_self] at below
      cases below

/-- No key is there twice, so the order of the fields does not matter. -/
theorem lookup_reverse (sorted : KeySorted fields) (k : String) :
    fields.reverse.lookup k = fields.lookup k := by
  induction fields with
  | nil => rfl
  | cons f rest ih =>
      rw [List.reverse_cons, List.lookup_append, ih (List.pairwise_cons.mp sorted).2,
        lookup_cons_ite, lookup_cons_ite]
      split
      · next same => rw [same, sorted.lookup_tail_eq_none, Option.none_or]
      · rw [List.lookup_nil, Option.or_none]

theorem nodup_keys (sorted : KeySorted fields) : (fields.map Prod.fst).Nodup := by
  refine List.pairwise_map.mpr (sorted.imp fun below same => ?_)
  rw [same, Std.ReflOrd.compare_self] at below
  cases below

theorem ext_mem (sorted : KeySorted fields) (sorted' : KeySorted fields')
    (same : ∀ f, f ∈ fields ↔ f ∈ fields') : fields = fields' := by
  have irrefl : Std.Irrefl fun f g : String × Value => compare f.1 g.1 = .lt :=
    ⟨fun f h => by rw [Std.ReflOrd.compare_self] at h; cases h⟩
  have antisymm : Std.Antisymm fun f g : String × Value => compare f.1 g.1 = .lt :=
    ⟨fun f g h h' => by
      rw [Std.OrientedOrd.eq_swap, h'] at h
      cases h⟩
  exact List.Pairwise.eq_of_mem_iff sorted sorted' same

/-- A sorted field list is determined by its lookups. -/
theorem ext (sorted : KeySorted fields) (sorted' : KeySorted fields')
    (same : ∀ k, fields.lookup k = fields'.lookup k) : fields = fields' :=
  sorted.ext_mem sorted' fun (k, v) => by
    rw [sorted.mem_iff_lookup, sorted'.mem_iff_lookup, same]

theorem toList (m : Std.ExtTreeMap String Value) : KeySorted m.toList := by
  have keys := m.ordered_keys
  rw [← Std.ExtTreeMap.map_fst_toList_eq_keys] at keys
  exact List.pairwise_map.mp keys

/-- The dictionary with sorted entries lists them as they were. -/
theorem toList_overwrite (sorted : KeySorted fields) :
    (overwrite (∅ : Std.ExtTreeMap String Value) fields).toList = fields := by
  refine (toList _).ext_mem sorted fun (k, v) => ?_
  rw [Std.ExtTreeMap.mem_toList_iff_getElem?_eq_some, getElem?_overwrite,
    Std.ExtTreeMap.getElem?_empty, Option.or_none]
  constructor
  · exact mem_of_lastWrite
  · intro member
    obtain ⟨v', written⟩ := Option.isSome_iff_exists.mp
      (@lastWrite_isSome_of_mem _ _ compare _ _ (k, v) member)
    have other := sorted.mem_iff_lookup.mp (mem_of_lastWrite written)
    rw [sorted.mem_iff_lookup.mp member] at other
    exact other ▸ written

/-- The keys after an insertion. -/
theorem mem_insertField {key : String} {v : Value} {f : String × Value}
    (member : f ∈ Foundation.insertField key v fields) : f = (key, v) ∨ f ∈ fields := by
  induction fields with
  | nil => exact .inl (List.mem_singleton.mp member)
  | cons g rest ih =>
      obtain ⟨l, w⟩ := g
      unfold Foundation.insertField at member
      split at member
      · exact (List.mem_cons.mp member)
      · exact (List.mem_cons.mp member).imp_right (List.mem_cons_of_mem _)
      · rcases List.mem_cons.mp member with rfl | later
        · exact .inr List.mem_cons_self
        · exact (ih later).imp_right (List.mem_cons_of_mem _)

theorem insertField (sorted : KeySorted fields) (key : String) (v : Value) :
    KeySorted (insertField key v fields) := by
  induction fields with
  | nil => exact List.pairwise_singleton _ _
  | cons f rest ih =>
      obtain ⟨l, w⟩ := f
      obtain ⟨above, rest_sorted⟩ := List.pairwise_cons.mp sorted
      unfold Foundation.insertField
      split
      · next below =>
        refine List.pairwise_cons.mpr ⟨fun g hg => ?_, sorted⟩
        rcases List.mem_cons.mp hg with rfl | later
        · exact below
        · exact Std.TransCmp.lt_trans below (above g later)
      · next same =>
        obtain rfl : key = l := Std.LawfulEqOrd.eq_of_compare same
        exact List.pairwise_cons.mpr ⟨above, rest_sorted⟩
      · next behind =>
        refine List.pairwise_cons.mpr ⟨fun g hg => ?_, ih rest_sorted⟩
        rcases mem_insertField hg with rfl | old
        · rw [Std.OrientedOrd.eq_swap, behind]
          rfl
        · exact above g old

theorem foldl_insertField (sorted : KeySorted fields) (added : List (String × Value)) :
    KeySorted (added.foldl (fun acc f => Foundation.insertField f.1 f.2 acc) fields) := by
  induction added generalizing fields with
  | nil => exact sorted
  | cons f rest ih => exact ih (sorted.insertField f.1 f.2)

end KeySorted

/-- A built object is sorted and is read by the names of its fields, the last one first. -/
theorem exists_sorted_objectOf (fields : List (String × Value)) :
    ∃ content, objectOf fields = .object content ∧ KeySorted content ∧
      ∀ k, content.lookup k = fields.reverse.lookup k := by
  refine ⟨_, rfl, KeySorted.nil.foldl_insertField fields, fun k => ?_⟩
  rw [lookup_foldl_insertField, List.lookup_nil, Option.or_none]

theorem lookup_eq_none_of_keys {fields : List (String × Value)} {names : List String} {k : String}
    (known : ∀ f ∈ fields, f.1 ∈ names) (unknown : k ∉ names) : fields.lookup k = none := by
  rw [List.lookup_eq_none_iff]
  intro f hf
  have apart : k ≠ f.1 := fun same => unknown (same ▸ known f hf)
  simpa using apart

/-- A written record is the given object when the object has no other fields and agrees
with the record on all of its names. -/
theorem objectOf_eq_object_iff {fields content : List (String × Value)} {names : List String}
    (known : ∀ f ∈ fields, f.1 ∈ names) (sorted : KeySorted content) :
    objectOf fields = .object content ↔
      (∀ f ∈ content, f.1 ∈ names) ∧
        ∀ k ∈ names, fields.reverse.lookup k = content.lookup k := by
  obtain ⟨written, eq, written_sorted, read⟩ := exists_sorted_objectOf fields
  have known' : ∀ f ∈ fields.reverse, f.1 ∈ names := fun f hf => known f (List.mem_reverse.mp hf)
  rw [eq, Value.object.injEq]
  constructor
  · rintro rfl
    refine ⟨fun f hf => ?_, fun k _ => (read k).symm⟩
    by_contra unknown
    have found := written_sorted.mem_iff_lookup.mp hf
    rw [read, lookup_eq_none_of_keys known' unknown] at found
    cases found
  · rintro ⟨others, same⟩
    refine written_sorted.ext sorted fun k => ?_
    rw [read]
    by_cases name : k ∈ names
    · exact same k name
    · rw [lookup_eq_none_of_keys known' name, lookup_eq_none_of_keys others name]

mutual

/-- Every object of a document is key-sorted. -/
def Value.isSorted : Value → Bool
  | .array items => itemsSorted items
  | .object fields => decide (KeySorted fields) && fieldsSorted fields
  | .null | .bool _ | .number _ | .string _ => true

def itemsSorted : List Value → Bool
  | [] => true
  | v :: rest => v.isSorted && itemsSorted rest

def fieldsSorted : List (String × Value) → Bool
  | [] => true
  | (_, v) :: rest => v.isSorted && fieldsSorted rest

end

namespace Value

theorem keySorted_of_isSorted {fields : List (String × Value)}
    (sorted : (object fields).isSorted = true) : KeySorted fields := by
  rw [isSorted, Bool.and_eq_true, decide_eq_true_eq] at sorted
  exact sorted.1

theorem isSorted_item {items : List Value} (sorted : (array items).isSorted = true) {v : Value}
    (member : v ∈ items) : v.isSorted = true := by
  rw [isSorted] at sorted
  induction items with
  | nil => cases member
  | cons w rest ih =>
      rw [itemsSorted, Bool.and_eq_true] at sorted
      rcases List.mem_cons.mp member with rfl | later
      · exact sorted.1
      · exact ih sorted.2 later

theorem isSorted_field {fields : List (String × Value)} (sorted : (object fields).isSorted = true)
    {k : String} {v : Value} (found : fields.lookup k = some v) : v.isSorted = true := by
  rw [isSorted, Bool.and_eq_true] at sorted
  replace sorted := sorted.2
  induction fields with
  | nil => cases found
  | cons f rest ih =>
      rw [fieldsSorted, Bool.and_eq_true] at sorted
      rw [lookup_cons_ite] at found
      split at found
      · cases found
        exact sorted.1
      · exact ih found sorted.2

end Value
end Lumencast.Foundation
