import Mathlib.Data.List.Basic
import Mathlib.Logic.Relation
import Lumencast.Foundation.Fields

/-!
# Positions in a document and documents with more keys

A position is a path of keys and array indices. `AddsKey` relates a document to
the one in which a single object, at any depth, has one key more; its reflexive
transitive closure holds between key-sorted documents as soon as every child of
the one is in the closure with the child of the other at the same step.
-/

namespace Lumencast.Foundation

open Relation

/-- One step into a document. -/
inductive Step where
  | key (k : String)
  | item (i : Nat)
  deriving DecidableEq, Repr

namespace Value

def child : Value → Step → Option Value
  | .object fields, .key k => fields.lookup k
  | .array items, .item i => items[i]?
  | _, _ => none

/-- The value at a position. -/
def atPath (v : Value) : List Step → Option Value
  | [] => some v
  | s :: path => (v.child s).bind fun w => w.atPath path

@[simp] theorem atPath_nil (v : Value) : v.atPath [] = some v := rfl

@[simp] theorem atPath_cons (v : Value) (s : Step) (path : List Step) :
    v.atPath (s :: path) = (v.child s).bind fun w => w.atPath path := rfl

theorem atPath_append (v : Value) (path path' : List Step) :
    v.atPath (path ++ path') = (v.atPath path).bind fun w => w.atPath path' := by
  induction path generalizing v with
  | nil => rfl
  | cons s path ih =>
      rw [List.cons_append, atPath_cons, atPath_cons, Option.bind_assoc]
      exact congrArg _ (funext fun w => ih w)

theorem sizeOf_child {v w : Value} {s : Step} (found : v.child s = some w) :
    sizeOf w < sizeOf v := by
  cases v with
  | object fields =>
      cases s with
      | item i => cases found
      | key k =>
          obtain ⟨front, back, rfl, -⟩ := List.lookup_eq_some_iff.mp found
          have member : (k, w) ∈ front ++ (k, w) :: back :=
            List.mem_append_right _ List.mem_cons_self
          have smaller := List.sizeOf_lt_of_mem member
          simp only [Prod.mk.sizeOf_spec, object.sizeOf_spec] at smaller ⊢
          omega
  | array items =>
      cases s with
      | key k => cases found
      | item i =>
          have smaller := List.sizeOf_lt_of_mem (List.mem_of_getElem? found)
          simp only [array.sizeOf_spec]
          omega
  | null | bool | number | string => cases s <;> cases found

/-- Induction over the children. -/
theorem child_induction {P : Value → Prop}
    (step : ∀ v, (∀ s w, v.child s = some w → P w) → P v) (v : Value) : P v :=
  step v fun _ w _ => child_induction step w
termination_by sizeOf v
decreasing_by exact sizeOf_child ‹_›

theorem isSorted_child {v w : Value} {s : Step} (sorted : v.isSorted = true)
    (found : v.child s = some w) : w.isSorted = true := by
  cases v with
  | object fields =>
      cases s with
      | item i => cases found
      | key k => exact isSorted_field sorted found
  | array items =>
      cases s with
      | key k => cases found
      | item i => exact isSorted_item sorted (List.mem_of_getElem? found)
  | null | bool | number | string => cases s <;> cases found

end Value

/-- Both are objects, or arrays of one length, or the same scalar. -/
def SameShape : Value → Value → Prop
  | .object _, .object _ => True
  | .array items, .array items' => items.length = items'.length
  | v, w => v = w

/-- A document is determined by its shape and its children. -/
theorem SameShape.ext {v w : Value} (sorted : v.isSorted = true) (sorted' : w.isSorted = true)
    (shape : SameShape v w) (children : ∀ s, v.child s = w.child s) : v = w := by
  cases v with
  | object fields =>
      cases w with
      | object fields' =>
          have keys := Value.keySorted_of_isSorted sorted
          have keys' := Value.keySorted_of_isSorted sorted'
          exact congrArg Value.object (keys.ext keys' fun k => children (.key k))
      | null | bool | number | string | array => cases shape
  | array items =>
      cases w with
      | array items' =>
          exact congrArg Value.array (List.ext_getElem? fun i => children (.item i))
      | null | bool | number | string | object => cases shape
  | null | bool | number | string =>
      cases w <;> cases shape
      rfl

/-- One object of the document has one key more. -/
inductive AddsKey : Value → Value → Prop where
  | here {fields : List (String × Value)} {k : String} (v : Value)
      (fresh : fields.lookup k = none) : AddsKey (.object fields) (.object (insertField k v fields))
  | field {fields : List (String × Value)} {k : String} {v w : Value}
      (found : fields.lookup k = some v) (below : AddsKey v w) :
      AddsKey (.object fields) (.object (insertField k w fields))
  | item {items : List Value} {i : Nat} {v w : Value} (found : items[i]? = some v)
      (below : AddsKey v w) : AddsKey (.array items) (.array (items.set i w))

theorem insertField_insertField (k : String) (v w : Value) (fields : List (String × Value)) :
    insertField k w (insertField k v fields) = insertField k w fields := by
  induction fields with
  | nil => simp [insertField]
  | cons f rest ih =>
      obtain ⟨l, u⟩ := f
      cases order : compare k l with
      | lt => simp [insertField, order]
      | eq => simp [insertField, order]
      | gt => simp [insertField, order, ih]

/-- Writing the value that is there changes nothing. -/
theorem insertField_of_lookup {fields : List (String × Value)} (sorted : KeySorted fields)
    {k : String} {v : Value} (found : fields.lookup k = some v) :
    insertField k v fields = fields := by
  refine (sorted.insertField k v).ext sorted fun l => ?_
  rw [lookup_insertField]
  split
  · next same => rw [same, found]
  · rfl

namespace AddsKey

/-- Nothing of the document gets lost. -/
theorem child {a b : Value} (adds : AddsKey a b) {s : Step} {v : Value}
    (found : a.child s = some v) : ∃ w, b.child s = some w ∧ (w = v ∨ AddsKey v w) := by
  cases adds with
  | @here fields k _ fresh =>
      cases s with
      | item i => cases found
      | key l =>
          have other : l ≠ k := by
            rintro rfl
            rw [Value.child, fresh] at found
            cases found
          exact ⟨v, by rwa [Value.child, lookup_insertField, if_neg other], .inl rfl⟩
  | @field fields k u w old below =>
      cases s with
      | item i => cases found
      | key l =>
          rw [Value.child] at found
          rw [Value.child, lookup_insertField]
          by_cases same : l = k
          · rw [same, old] at found
            exact ⟨w, if_pos same, .inr (Option.some.inj found ▸ below)⟩
          · exact ⟨v, by rwa [if_neg same], .inl rfl⟩
  | @item items i u w old below =>
      cases s with
      | key k => cases found
      | item j =>
          rw [Value.child] at found
          rw [Value.child]
          by_cases same : i = j
          · subst same
            rw [old] at found
            have bound := (List.getElem?_eq_some_iff.mp old).1
            exact ⟨w, List.getElem?_set_self bound, .inr (Option.some.inj found ▸ below)⟩
          · exact ⟨v, by rwa [List.getElem?_set_ne same], .inl rfl⟩

theorem sameShape {a b e : Value} (adds : AddsKey a b) (shape : SameShape e a) : SameShape e b := by
  cases adds with
  | here | field =>
      cases e <;> cases shape
      trivial
  | item =>
      cases e with
      | array items => exact shape.trans (List.length_set ..).symm
      | _ => cases shape

/-- Keys added to a field are keys added to the object. -/
theorem lift_field {fields : List (String × Value)} (sorted : KeySorted fields) {k : String}
    {v w : Value} (found : fields.lookup k = some v) (below : ReflTransGen AddsKey v w) :
    ReflTransGen AddsKey (.object fields) (.object (insertField k w fields)) := by
  induction below with
  | refl => rw [insertField_of_lookup sorted found]
  | @tail x y _ last ih =>
      refine ih.tail ?_
      have here : (insertField k x fields).lookup k = some x := by
        rw [lookup_insertField, if_pos rfl]
      have step := field here last
      rwa [insertField_insertField] at step

theorem lift_item {items : List Value} {i : Nat} {v w : Value} (found : items[i]? = some v)
    (below : ReflTransGen AddsKey v w) :
    ReflTransGen AddsKey (.array items) (.array (items.set i w)) := by
  obtain ⟨bound, value⟩ := List.getElem?_eq_some_iff.mp found
  induction below with
  | refl => rw [← value, List.set_getElem_self bound]
  | @tail x y _ last ih =>
      refine ih.tail ?_
      have here : (items.set i x)[i]? = some x := List.getElem?_set_self bound
      have step := item here last
      rwa [List.set_set] at step

/-- The fields of the one object are written into the other, one after the other. -/
theorem write_fields {fields : List (String × Value)} (sorted : KeySorted fields)
    {added : List (String × Value)} (distinct : (added.map Prod.fst).Nodup)
    (grows : ∀ f ∈ added, ∀ v, fields.lookup f.1 = some v → ReflTransGen AddsKey v f.2) :
    ReflTransGen AddsKey (.object fields)
      (.object (added.foldl (fun acc f => insertField f.1 f.2 acc) fields)) := by
  induction added generalizing fields with
  | nil => exact .refl
  | cons f added ih =>
      obtain ⟨k, w⟩ := f
      obtain ⟨first, rest⟩ := List.nodup_cons.mp distinct
      have step : ReflTransGen AddsKey (.object fields) (.object (insertField k w fields)) := by
        cases found : fields.lookup k with
        | none => exact .single (here w found)
        | some v => exact lift_field sorted found (grows (k, w) List.mem_cons_self v found)
      refine step.trans (ih (sorted.insertField k w) rest fun g member v found => ?_)
      have other : g.1 ≠ k := by
        intro same
        have listed : g.1 ∈ added.map Prod.fst := List.mem_map_of_mem member
        exact first (same ▸ listed)
      rw [lookup_insertField, if_neg other] at found
      exact grows g (List.mem_cons_of_mem _ member) v found

theorem write_items {front items items' : List Value}
    (grows : List.Forall₂ (ReflTransGen AddsKey) items items') :
    ReflTransGen AddsKey (.array (front ++ items)) (.array (front ++ items')) := by
  induction grows generalizing front with
  | nil => exact .refl
  | @cons v w items items' first _ ih =>
      have found : (front ++ v :: items)[front.length]? = some v := by simp
      have step := lift_item found first
      rw [List.set_append_right _ _ (Nat.le_refl _), Nat.sub_self, List.set_cons_zero] at step
      have rest := @ih (front ++ [w])
      rw [List.append_assoc, List.append_assoc] at rest
      exact step.trans rest

/-- A document grows into another if its children do. -/
theorem of_children {v w : Value} (sorted : v.isSorted = true) (sorted' : w.isSorted = true)
    (shape : SameShape v w)
    (grows : ∀ s x, v.child s = some x → ∃ y, w.child s = some y ∧ ReflTransGen AddsKey x y) :
    ReflTransGen AddsKey v w := by
  cases v with
  | object fields =>
      cases w with
      | object fields' =>
          have keys := Value.keySorted_of_isSorted sorted
          have keys' := Value.keySorted_of_isSorted sorted'
          have written := write_fields keys keys'.nodup_keys fun f member x found => by
            obtain ⟨y, found', below⟩ := grows (.key f.1) x found
            rw [Value.child, keys'.mem_iff_lookup.mp member] at found'
            exact Option.some.inj found' ▸ below
          have same : fields'.foldl (fun acc f => insertField f.1 f.2 acc) fields = fields' := by
            refine (keys.foldl_insertField fields').ext keys' fun k => ?_
            rw [lookup_foldl_insertField, keys'.lookup_reverse]
            cases found : fields.lookup k with
            | none => rw [Option.or_none]
            | some x =>
                obtain ⟨y, found', -⟩ := grows (.key k) x found
                rw [Value.child] at found'
                rw [found', Option.some_or]
          rwa [same] at written
      | null | bool | number | string | array => cases shape
  | array items =>
      cases w with
      | array items' =>
          refine @write_items [] items items' (List.forall₂_iff_get.mpr ⟨shape, fun i h h' => ?_⟩)
          obtain ⟨y, found', below⟩ := grows (.item i) _ (List.getElem?_eq_getElem h)
          obtain ⟨_, rfl⟩ := List.getElem?_eq_some_iff.mp found'
          exact below
      | null | bool | number | string | object => cases shape
  | null | bool | number | string =>
      cases w <;> cases shape
      exact .refl

end AddsKey
end Lumencast.Foundation
