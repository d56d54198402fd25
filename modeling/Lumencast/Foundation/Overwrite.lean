import Mathlib.Data.List.Basic
import Mathlib.Tactic.Common

/-!
# Last-writer-wins maps and the replay of their history

A batch of writes is a list of key/value pairs applied from left to right, and a
history is a list of batches. `lastWrite` gives the pointwise meaning of a
batch, and every law below is a statement about it.

`Absorbs m ws` says that the writes `ws` are already visible in `m`: replaying
them changes nothing. It is the property that makes a snapshot taken late
harmless, since a reader may replay writes that the snapshot already contains.
`Absorbs.append_overwrite` is its step law, and `overwrite_comm` reorders two batches
that share no key.
-/

namespace Lumencast.Foundation

open Std

universe u v

variable {κ : Type u} {ν : Type v} {cmp : κ → κ → Ordering} [TransCmp cmp]

/-- Apply a batch of writes from left to right. -/
def overwrite (m : ExtTreeMap κ ν cmp) (ws : List (κ × ν)) : ExtTreeMap κ ν cmp :=
  ws.foldl (fun m w => m.insert w.1 w.2) m

/-- The value that a batch leaves at a key, if it writes the key at all. -/
def lastWrite (cmp : κ → κ → Ordering) : List (κ × ν) → κ → Option ν
  | [], _ => none
  | w :: ws, k => (lastWrite cmp ws k).or (if cmp w.1 k = .eq then some w.2 else none)

@[simp] theorem overwrite_nil (m : ExtTreeMap κ ν cmp) : overwrite m [] = m := rfl

@[simp] theorem overwrite_cons (m : ExtTreeMap κ ν cmp) (w : κ × ν) (ws : List (κ × ν)) :
    overwrite m (w :: ws) = overwrite (m.insert w.1 w.2) ws := rfl

theorem overwrite_append (m : ExtTreeMap κ ν cmp) (us ws : List (κ × ν)) :
    overwrite m (us ++ ws) = overwrite (overwrite m us) ws :=
  List.foldl_append

/-- The pointwise meaning of a batch: its last write to the key, or the old value. -/
theorem getElem?_overwrite (m : ExtTreeMap κ ν cmp) (ws : List (κ × ν)) (k : κ) :
    (overwrite m ws)[k]? = (lastWrite cmp ws k).or m[k]? := by
  induction ws generalizing m with
  | nil => rfl
  | cons w ws ih =>
      rw [overwrite_cons, ih, ExtTreeMap.getElem?_insert, lastWrite]
      cases lastWrite cmp ws k <;> by_cases h : cmp w.1 k = .eq <;> simp [h]

omit [TransCmp cmp] in
theorem lastWrite_append (us ws : List (κ × ν)) (k : κ) :
    lastWrite cmp (us ++ ws) k = (lastWrite cmp ws k).or (lastWrite cmp us k) := by
  induction us with
  | nil => simp [lastWrite]
  | cons u us ih => rw [List.cons_append, lastWrite, ih, lastWrite, Option.or_assoc]

section Lawful

variable [LawfulEqCmp cmp]

omit [TransCmp cmp] in
theorem mem_of_lastWrite {ws : List (κ × ν)} {k : κ} {v : ν}
    (h : lastWrite cmp ws k = some v) : (k, v) ∈ ws := by
  induction ws with
  | nil => cases h
  | cons w ws ih =>
      rw [lastWrite, Option.or_eq_some_iff] at h
      rcases h with later | ⟨_, here⟩
      · exact List.mem_cons_of_mem _ (ih later)
      · split at here
        · next same =>
          cases here
          rw [← LawfulEqCmp.eq_of_compare same]
          exact List.mem_cons_self
        · cases here

omit [TransCmp cmp] in
theorem lastWrite_isSome_of_mem {ws : List (κ × ν)} {w : κ × ν} (h : w ∈ ws) :
    (lastWrite cmp ws w.1).isSome := by
  induction ws with
  | nil => cases h
  | cons u ws ih =>
      rcases List.mem_cons.mp h with rfl | later
      · simp [lastWrite]
      · simp [lastWrite, ih later]

omit [TransCmp cmp] in
/-- In a batch that a sorted list makes, the greatest of the entries that write a key decides. -/
theorem lastWrite_filterMap {α : Type*} {f : α → Option (κ × ν)} {below : α → α → Prop}
    (asymm : ∀ a b, below a b → ¬below b a) {as : List α} (sorted : as.Pairwise below) {k : κ}
    {v : ν} : lastWrite cmp (as.filterMap f) k = some v ↔
      ∃ a ∈ as, f a = some (k, v) ∧ ∀ b ∈ as, ∀ w, f b = some (k, w) → ¬below a b := by
  induction as with
  | nil => simp [lastWrite]
  | cons c as ih =>
      obtain ⟨first, rest⟩ := List.pairwise_cons.mp sorted
      specialize ih rest
      have written : ∀ b ∈ as, ∀ w, f b = some (k, w) →
          (lastWrite cmp (as.filterMap f) k).isSome := fun b member w fb =>
        lastWrite_isSome_of_mem (w := (k, w)) (List.mem_filterMap.mpr ⟨b, member, fb⟩)
      have split : lastWrite cmp ((c :: as).filterMap f) k = some v ↔
          lastWrite cmp (as.filterMap f) k = some v ∨
            (lastWrite cmp (as.filterMap f) k = none ∧ f c = some (k, v)) := by
        cases fc : f c with
        | none => simp [fc]
        | some w =>
            obtain ⟨l, u⟩ := w
            rw [List.filterMap_cons, fc, lastWrite, Option.or_eq_some_iff]
            by_cases same : l = k
            · subst same
              simp
            · have apart : cmp l k ≠ .eq := fun h => same (LawfulEqCmp.eq_of_compare h)
              simp [same, apart]
      rw [split]
      constructor
      · rintro (later | ⟨nothing, here⟩)
        · obtain ⟨a, member, fa, greatest⟩ := ih.mp later
          refine ⟨a, List.mem_cons_of_mem c member, fa, fun b among w fb => ?_⟩
          rcases List.mem_cons.mp among with rfl | among
          · exact asymm _ _ (first a member)
          · exact greatest b among w fb
        · refine ⟨c, List.mem_cons_self, here, fun b among w fb => ?_⟩
          rcases List.mem_cons.mp among with rfl | among
          · exact fun h => asymm _ _ h h
          · have some_later := written b among w fb
            rw [nothing] at some_later
            cases some_later
      · rintro ⟨a, member, fa, greatest⟩
        rcases List.mem_cons.mp member with rfl | member
        · refine .inr ⟨?_, fa⟩
          by_contra some_later
          obtain ⟨u, later⟩ := Option.ne_none_iff_exists'.mp some_later
          obtain ⟨b, among, fb⟩ := List.mem_filterMap.mp (mem_of_lastWrite later)
          exact greatest b (List.mem_cons_of_mem _ among) u fb (first b among)
        · exact .inl (ih.mpr ⟨a, member, fa, fun b among =>
            greatest b (List.mem_cons_of_mem c among)⟩)

/-- A key of the result was written by the batch or was there before. -/
theorem mem_or_getElem?_of_overwrite {m : ExtTreeMap κ ν cmp} {ws : List (κ × ν)} {k : κ} {v : ν}
    (h : (overwrite m ws)[k]? = some v) : (k, v) ∈ ws ∨ m[k]? = some v := by
  rw [getElem?_overwrite, Option.or_eq_some_iff] at h
  rcases h with written | ⟨_, old⟩
  · exact .inl (mem_of_lastWrite written)
  · exact .inr old

/-- Writing all entries of a map gives the map. -/
theorem overwrite_toList (m : ExtTreeMap κ ν cmp) : overwrite ∅ m.toList = m := by
  apply ExtTreeMap.ext_getElem?
  intro k
  rw [getElem?_overwrite, ExtTreeMap.getElem?_empty, Option.or_none]
  cases written : lastWrite cmp m.toList k with
  | some v => exact (ExtTreeMap.mem_toList_iff_getElem?_eq_some.mp (mem_of_lastWrite written)).symm
  | none =>
      cases found : m[k]? with
      | none => rfl
      | some v =>
          have member := ExtTreeMap.mem_toList_iff_getElem?_eq_some.mpr found
          have written' : (lastWrite cmp m.toList k).isSome := lastWrite_isSome_of_mem member
          simp [written] at written'

/-- Batches over disjoint sets of keys commute. -/
theorem overwrite_comm (m : ExtTreeMap κ ν cmp) {us ws : List (κ × ν)}
    (disjoint : ∀ u ∈ us, ∀ w ∈ ws, u.1 ≠ w.1) :
    overwrite (overwrite m us) ws = overwrite (overwrite m ws) us := by
  apply ExtTreeMap.ext_getElem?
  intro k
  simp only [getElem?_overwrite]
  cases hu : lastWrite cmp us k with
  | none => simp
  | some u =>
      cases hw : lastWrite cmp ws k with
      | none => simp
      | some w =>
          exact (disjoint _ (mem_of_lastWrite hu) _ (mem_of_lastWrite hw) rfl).elim

/-- Writes that are repeated later leave no trace. -/
theorem overwrite_of_subset (m : ExtTreeMap κ ν cmp) {us ws : List (κ × ν)} (repeated : us ⊆ ws) :
    overwrite (overwrite m us) ws = overwrite m ws := by
  apply ExtTreeMap.ext_getElem?
  intro k
  simp only [getElem?_overwrite]
  cases last : lastWrite cmp ws k with
  | some v => simp
  | none =>
      cases earlier : lastWrite cmp us k with
      | none => simp
      | some v =>
          have again : (lastWrite cmp ws k).isSome :=
            lastWrite_isSome_of_mem (repeated (mem_of_lastWrite earlier))
          simp [last] at again

/-- Replaying `ws` leaves `m` as it is: the writes are already visible in it. -/
def Absorbs (m : ExtTreeMap κ ν cmp) (ws : List (κ × ν)) : Prop :=
  overwrite m ws = m

theorem absorbs_iff {m : ExtTreeMap κ ν cmp} {ws : List (κ × ν)} :
    Absorbs m ws ↔ ∀ k v, lastWrite cmp ws k = some v → m[k]? = some v := by
  constructor
  · intro absorbed k v written
    rw [← absorbed, getElem?_overwrite, written, Option.some_or]
  · intro visible
    apply ExtTreeMap.ext_getElem?
    intro k
    rw [getElem?_overwrite]
    cases written : lastWrite cmp ws k with
    | none => simp
    | some v => simpa using (visible k v written).symm

namespace Absorbs

variable {m : ExtTreeMap κ ν cmp} {us ws : List (κ × ν)}

omit [LawfulEqCmp cmp] in
@[simp] theorem nil : Absorbs m [] := rfl

/-- A later batch keeps the earlier writes visible when it is replayed with them. -/
theorem append_overwrite (h : Absorbs m ws) (us : List (κ × ν)) :
    Absorbs (overwrite m us) (ws ++ us) := by
  rw [absorbs_iff] at h ⊢
  intro k v written
  rw [lastWrite_append, Option.or_eq_some_iff] at written
  rw [getElem?_overwrite]
  rcases written with last | ⟨untouched, earlier⟩
  · simp [last]
  · simp [untouched, h k v earlier]

end Absorbs

/-- All writes of a history, oldest first. -/
def writesOf (history : List (List (κ × ν))) : List (κ × ν) :=
  history.flatten

@[simp] theorem writesOf_nil : writesOf ([] : List (List (κ × ν))) = [] := rfl

omit [LawfulEqCmp cmp] [TransCmp cmp] in
@[simp] theorem writesOf_append (older newer : List (List (κ × ν))) :
    writesOf (older ++ newer) = writesOf older ++ writesOf newer :=
  List.flatten_append

omit [LawfulEqCmp cmp] [TransCmp cmp] in
@[simp] theorem writesOf_singleton (ws : List (κ × ν)) : writesOf [ws] = ws :=
  List.flatten_singleton

omit [LawfulEqCmp cmp] [TransCmp cmp] in
@[simp] theorem writesOf_cons (ws : List (κ × ν)) (newer : List (List (κ × ν))) :
    writesOf (ws :: newer) = ws ++ writesOf newer :=
  List.flatten_cons

/-- A batch may be replayed before earlier batches that share no key with it. -/
theorem overwrite_writesOf_swap (m : ExtTreeMap κ ν cmp) (older newer : List (List (κ × ν)))
    {skipped : List (List (κ × ν))} {ws : List (κ × ν)}
    (disjoint : ∀ u ∈ writesOf skipped, ∀ w ∈ ws, u.1 ≠ w.1) :
    overwrite m (writesOf (older ++ (skipped ++ ws :: newer))) =
      overwrite m (writesOf (older ++ ws :: (skipped ++ newer))) := by
  simp only [writesOf_append, writesOf_cons, overwrite_append]
  rw [overwrite_comm _ disjoint]

end Lawful
end Lumencast.Foundation
