import Mathlib.Data.List.Basic

/-!
# Discarding what was seen before

A receiver of numbered messages from two overlapping sources keeps a message only when
its number is above every number seen before. `fresh` is what it keeps, starting from a
number that it knows, and `highest` is the number it has seen then.

`fresh_overlap` is the case of a log of increasing numbers: a part of the log that was
looked up, followed by a stretch of it from an earlier position on, is kept as one front
part of the log.
-/

namespace Lumencast.Foundation

universe u v

variable {α : Type u} {β : Type v}

/-- The highest number seen, starting from `since`. -/
def highest (num : α → Nat) (since : Nat) (l : List α) : Nat :=
  l.foldl (fun top a => max top (num a)) since

/-- The messages above every number seen before them, starting from `since`. -/
def fresh (num : α → Nat) : Nat → List α → List α
  | _, [] => []
  | since, a :: rest =>
      if since < num a then a :: fresh num (num a) rest else fresh num since rest

variable {num : α → Nat}

@[simp] theorem highest_cons (since : Nat) (a : α) (l : List α) :
    highest num since (a :: l) = highest num (max since (num a)) l := rfl

theorem since_le_highest (since : Nat) (l : List α) : since ≤ highest num since l := by
  induction l generalizing since with
  | nil => exact Nat.le_refl _
  | cons a l ih => exact Nat.le_trans (Nat.le_max_left ..) (ih _)

theorem le_highest {since : Nat} {l : List α} {a : α} (member : a ∈ l) :
    num a ≤ highest num since l := by
  induction l generalizing since with
  | nil => cases member
  | cons b l ih =>
      rcases List.mem_cons.mp member with rfl | later
      · exact Nat.le_trans (Nat.le_max_right ..) (since_le_highest _ l)
      · exact ih later

/-- The highest number is the start, or the number of a message. -/
theorem highest_eq_or_mem (since : Nat) (l : List α) :
    highest num since l = since ∨ ∃ a ∈ l, num a = highest num since l := by
  induction l generalizing since with
  | nil => exact .inl rfl
  | cons a l ih =>
      rw [highest_cons]
      rcases ih (max since (num a)) with start | ⟨b, member, same⟩
      · rcases Nat.le_total (num a) since with old | new
        · exact .inl (start.trans (Nat.max_eq_left old))
        · exact .inr ⟨a, List.mem_cons_self, (start.trans (Nat.max_eq_right new)).symm⟩
      · exact .inr ⟨b, List.mem_cons_of_mem a member, same⟩

/-- Numbers that are not above the start do not raise it. -/
theorem highest_filter {since top : Nat} (le : since ≤ top) (l : List α) :
    highest num top (l.filter fun a => since < num a) = highest num top l := by
  induction l generalizing top with
  | nil => rfl
  | cons a l ih =>
      by_cases above : since < num a
      · rw [List.filter_cons_of_pos (by simpa using above), highest_cons, highest_cons,
          ih (Nat.le_trans le (Nat.le_max_left ..))]
      · have low : num a ≤ top := Nat.le_trans (Nat.not_lt.mp above) le
        rw [List.filter_cons_of_neg (by simpa using above), highest_cons, Nat.max_eq_left low,
          ih le]

theorem highest_map {num' : β → Nat} {f : α → β} (same : ∀ a, num' (f a) = num a) (since : Nat)
    (l : List α) : highest num' since (l.map f) = highest num since l := by
  rw [highest, List.foldl_map]
  simp only [same]
  rfl

/-- What is discarded has no number above those that are kept. -/
theorem highest_fresh (since : Nat) (l : List α) :
    highest num since (fresh num since l) = highest num since l := by
  induction l generalizing since with
  | nil => rfl
  | cons a l ih =>
      rw [fresh, highest_cons]
      split
      · next above => rw [highest_cons, Nat.max_eq_right (Nat.le_of_lt above), ih]
      · next old => rw [Nat.max_eq_left (Nat.not_lt.mp old), ih]

theorem fresh_append (since : Nat) (l r : List α) :
    fresh num since (l ++ r) = fresh num since l ++ fresh num (highest num since l) r := by
  induction l generalizing since with
  | nil => rfl
  | cons a l ih =>
      rw [List.cons_append, fresh, fresh, highest_cons]
      split
      · next above => rw [ih, Nat.max_eq_right (Nat.le_of_lt above), List.cons_append]
      · next old => rw [ih, Nat.max_eq_left (Nat.not_lt.mp old)]

/-- What is kept depends on the numbers alone. -/
theorem fresh_map {num' : β → Nat} {f : α → β} (same : ∀ a, num' (f a) = num a) (since : Nat)
    (l : List α) : fresh num' since (l.map f) = (fresh num since l).map f := by
  induction l generalizing since with
  | nil => rfl
  | cons a l ih =>
      rw [List.map_cons, fresh, fresh, same]
      split
      · rw [ih, List.map_cons]
      · exact ih since

/-- Of an increasing list, everything above the start is kept. -/
theorem fresh_of_increasing (since : Nat) {l : List α}
    (increasing : l.Pairwise fun a b => num a < num b) :
    fresh num since l = l.filter fun a => since < num a := by
  induction l generalizing since with
  | nil => rfl
  | cons a l ih =>
      obtain ⟨least, increasing⟩ := List.pairwise_cons.mp increasing
      rw [fresh]
      split
      · next above =>
        have later : l.filter (fun b => num a < num b) = l.filter fun b => since < num b :=
          List.filter_congr fun b member => by
            have := least b member
            simp only [this, Nat.lt_trans above this]
        rw [ih (num a) increasing, List.filter_cons_of_pos (by simpa using above), later]
      · next old =>
        rw [ih since increasing, List.filter_cons_of_neg (by simpa using old)]

/-- Above a number that splits the list there is what follows the split. -/
theorem filter_eq_drop {l : List α} {n k : Nat} (front : ∀ a ∈ l.take k, num a ≤ n)
    (back : ∀ a ∈ l.drop k, n < num a) : (l.filter fun a => n < num a) = l.drop k := by
  have old : (l.take k).filter (fun a => n < num a) = [] :=
    List.filter_eq_nil_iff.mpr fun a member => by simpa using front a member
  have new : (l.drop k).filter (fun a => n < num a) = l.drop k :=
    List.filter_eq_self.mpr fun a member => by simpa using back a member
  calc l.filter (fun a => n < num a)
      = (l.take k ++ l.drop k).filter fun a => n < num a := by rw [List.take_append_drop]
    _ = l.drop k := by rw [List.filter_append, old, new, List.nil_append]

/-- An increasing list is split by any number. -/
theorem filter_le_append_filter_lt {l : List α} (increasing : l.Pairwise fun a b => num a < num b)
    (n : Nat) : (l.filter fun a => num a ≤ n) ++ (l.filter fun a => n < num a) = l := by
  induction l with
  | nil => rfl
  | cons a l ih =>
      obtain ⟨least, increasing⟩ := List.pairwise_cons.mp increasing
      by_cases low : num a ≤ n
      · rw [List.filter_cons_of_pos (by simpa using low),
          List.filter_cons_of_neg (by simpa using low), List.cons_append, ih increasing]
      · have above : ∀ b ∈ a :: l, n < num b := by
          intro b member
          rcases List.mem_cons.mp member with rfl | later
          · exact Nat.lt_of_not_le low
          · exact Nat.lt_trans (Nat.lt_of_not_le low) (least b later)
        have nothing : (a :: l).filter (fun b => num b ≤ n) = [] :=
          List.filter_eq_nil_iff.mpr fun b member => by simpa using above b member
        have all : (a :: l).filter (fun b => n < num b) = a :: l :=
          List.filter_eq_self.mpr fun b member => decide_eq_true (above b member)
        rw [nothing, all, List.nil_append]

/-- The messages numbered above `n`, up to `m`. -/
def between (num : α → Nat) (n m : Nat) (l : List α) : List α :=
  l.filter fun a => n < num a ∧ num a ≤ m

theorem between_append (n m : Nat) (l r : List α) :
    between num n m (l ++ r) = between num n m l ++ between num n m r :=
  List.filter_append ..

theorem between_append_above {l : List α} (increasing : l.Pairwise fun a b => num a < num b)
    {n m : Nat} (le : n ≤ m) :
    between num n m l ++ (l.filter fun a => m < num a) = l.filter fun a => n < num a := by
  have parts := filter_le_append_filter_lt
    (increasing.sublist (List.filter_sublist (p := fun a => n < num a))) m
  rw [List.filter_filter, List.filter_filter] at parts
  rw [← parts]
  refine congrArg₂ (· ++ ·) (List.filter_congr fun a _ => ?_) (List.filter_congr fun a _ => ?_)
  · simp [Bool.and_comm]
  · by_cases above : m < num a
    · simp [above, Nat.lt_of_le_of_lt le above]
    · simp [above]

theorem between_append_between {l : List α} (increasing : l.Pairwise fun a b => num a < num b)
    {n m k : Nat} (low : n ≤ m) (high : m ≤ k) :
    between num n m l ++ between num m k l = between num n k l := by
  have parts := between_append_above
    (increasing.sublist (List.filter_sublist (p := fun a => num a ≤ k))) low
  rw [between, List.filter_filter, List.filter_filter, List.filter_filter] at parts
  refine Eq.trans (congrArg₂ (· ++ ·) ?_ ?_) (parts.trans ?_)
  · refine List.filter_congr fun a _ => ?_
    have : num a ≤ m → num a ≤ k := fun le => Nat.le_trans le high
    grind
  · exact List.filter_congr fun a _ => Bool.decide_and ..
  · exact List.filter_congr fun a _ => (Bool.decide_and ..).symm

section Split

variable {l : List α} {base k : Nat}

theorem highest_lt_of_mem_drop (increasing : l.Pairwise fun a b => num a < num b)
    (ahead : ∀ a ∈ l.drop k, base < num a) {a : α} (member : a ∈ l.drop k) :
    highest num base (l.take k) < num a := by
  rw [← List.take_append_drop k l] at increasing
  rcases highest_eq_or_mem base (l.take k) with same | ⟨b, found, same⟩
  · rw [same]
    exact ahead a member
  · rw [← same]
    exact (List.pairwise_append.mp increasing).2.2 b found a member

/-- What follows a front part of the list is above its highest number. -/
theorem filter_highest (increasing : l.Pairwise fun a b => num a < num b)
    (ahead : ∀ a ∈ l.drop k, base < num a) :
    (l.filter fun a => highest num base (l.take k) < num a) = l.drop k :=
  filter_eq_drop (fun _ member => le_highest member)
    fun _ member => highest_lt_of_mem_drop increasing ahead member

/-- A front part of the list is what goes up to its highest number. -/
theorem between_highest (increasing : l.Pairwise fun a b => num a < num b)
    (ahead : ∀ a ∈ l.drop k, base < num a) (n : Nat) :
    between num n (highest num base (l.take k)) l = (l.take k).filter fun a => n < num a := by
  have low : ∀ a ∈ l.take k, num a ≤ highest num base (l.take k) := fun _ => le_highest
  have above : ∀ a ∈ l.drop k, highest num base (l.take k) < num a :=
    fun _ => highest_lt_of_mem_drop increasing ahead
  generalize highest num base (l.take k) = top at low above
  have early : between num n top (l.take k) = (l.take k).filter fun a => n < num a :=
    List.filter_congr fun a member => by simp [low a member]
  have late : between num n top (l.drop k) = [] :=
    List.filter_eq_nil_iff.mpr fun a member => by simp [above a member]
  calc between num n top l
      = between num n top (l.take k ++ l.drop k) := by rw [List.take_append_drop]
    _ = between num n top (l.take k) ++ between num n top (l.drop k) := between_append ..
    _ = (l.take k).filter fun a => n < num a := by rw [early, late, List.append_nil]

/-- What is above a number in a front part of the list goes up to its own highest number. -/
theorem between_highest_filter (increasing : l.Pairwise fun a b => num a < num b)
    (since k : Nat) :
    between num since (highest num since ((l.take k).filter fun a => since < num a)) l =
      (l.take k).filter fun a => since < num a := by
  rw [highest_filter (Nat.le_refl since)]
  by_cases nothing : (l.take k).filter (fun a => since < num a) = []
  · have top : highest num since (l.take k) = since := by
      rw [← highest_filter (Nat.le_refl since), nothing]
      rfl
    rw [nothing, top]
    exact List.filter_eq_nil_iff.mpr fun a _ => by simp
  · obtain ⟨a, kept⟩ := List.exists_mem_of_ne_nil _ nothing
    obtain ⟨front, above⟩ := List.mem_filter.mp kept
    have ahead : ∀ b ∈ l.drop k, since < num b := by
      intro b member
      rw [← List.take_append_drop k l] at increasing
      exact Nat.lt_trans (of_decide_eq_true above)
        ((List.pairwise_append.mp increasing).2.2 a front b member)
    exact between_highest increasing ahead since

end Split

/-- A looked-up front part of a log, and the log from an earlier position on. -/
theorem fresh_overlap {l : List α} {since start split next : Nat}
    (increasing : l.Pairwise fun a b => num a < num b) (before : start ≤ split)
    (inside : split ≤ l.length) :
    fresh num since (((l.take split).filter fun a => since < num a) ++ (l.take next).drop start) =
      (l.take (max split next)).filter fun a => since < num a := by
  have looked : ((l.take split).filter fun a => since < num a).Pairwise
      fun a b => num a < num b :=
    increasing.sublist (List.filter_sublist.trans (List.take_sublist ..))
  have stretch : ((l.take next).drop start).Pairwise fun a b => num a < num b :=
    increasing.sublist ((List.drop_sublist ..).trans (List.take_sublist ..))
  rw [fresh_append, fresh_of_increasing since looked, fresh_of_increasing _ stretch,
    List.filter_filter]
  simp only [Bool.and_self]
  have start_le := @since_le_highest _ num since ((l.take split).filter fun a => since < num a)
  have top_eq := @highest_eq_or_mem _ num since ((l.take split).filter fun a => since < num a)
  have seen : ∀ a ∈ l.take split,
      num a ≤ highest num since ((l.take split).filter fun a => since < num a) := by
    intro a member
    by_cases above : since < num a
    · exact le_highest (List.mem_filter.mpr ⟨member, decide_eq_true above⟩)
    · exact Nat.le_trans (Nat.not_lt.mp above) start_le
  generalize highest num since ((l.take split).filter fun a => since < num a) = top at *
  have nothing {part : List α} (inside : ∀ a ∈ part, a ∈ l.take split) :
      (part.filter fun a => top < num a) = [] :=
    List.filter_eq_nil_iff.mpr fun a member => by simpa using seen a (inside a member)
  rcases Nat.le_total next split with short | long
  · have inside : ∀ a ∈ (l.take next).drop start, a ∈ l.take split := fun a member =>
      (List.take_sublist_take_left short).subset (List.mem_of_mem_drop member)
    rw [nothing inside, List.append_nil, Nat.max_eq_left short]
  · obtain ⟨more, whole⟩ : l.take split <+: l.take next := List.take_prefix_take_left long
    replace whole := whole.symm
    have later : more.filter (fun a => top < num a) = more.filter fun a => since < num a := by
      refine List.filter_congr fun b member => ?_
      have apart : ∀ a ∈ l.take split, num a < num b := fun a seen =>
        (List.pairwise_append.mp (whole ▸ increasing.sublist (List.take_sublist next l))).2.2 a
          seen b member
      rcases top_eq with same | ⟨a, found, same⟩
      · rw [same]
      · have below := apart a (List.mem_of_mem_filter found)
        simp only [decide_eq_decide]
        omega
    have reaches : start ≤ (l.take split).length := by
      rwa [List.length_take, Nat.min_eq_left inside]
    rw [Nat.max_eq_right long, whole, List.drop_append_of_le_length reaches,
      List.filter_append, nothing (fun a member => List.mem_of_mem_drop member),
      List.nil_append, later, List.filter_append]

/-- A front part of what a filter lets pass is what it lets pass of a front part. -/
theorem exists_take_filter (p : α → Bool) (l : List α) (n : Nat) :
    ∃ k, (l.filter p).take n = (l.take k).filter p := by
  induction l generalizing n with
  | nil => exact ⟨0, List.take_nil⟩
  | cons a l ih =>
      cases n with
      | zero => exact ⟨0, by simp⟩
      | succ n =>
          cases passes : p a with
          | true =>
              obtain ⟨k, same⟩ := ih n
              refine ⟨k + 1, ?_⟩
              rw [List.filter_cons_of_pos passes, List.take_succ_cons, List.take_succ_cons,
                List.filter_cons_of_pos passes, same]
          | false =>
              obtain ⟨k, same⟩ := ih (n + 1)
              refine ⟨k + 1, ?_⟩
              have held : ¬p a = true := by simp [passes]
              rw [List.filter_cons_of_neg held, List.take_succ_cons,
                List.filter_cons_of_neg held, same]

/-- A receiver that stops early has a front part of the log, too. -/
theorem fresh_overlap_take {l : List α} {since start split next : Nat}
    (increasing : l.Pairwise fun a b => num a < num b) (before : start ≤ split)
    (inside : split ≤ l.length) (n : Nat) :
    ∃ k, fresh num since ((((l.take split).filter fun a => since < num a) ++
      (l.take next).drop start).take n) = (l.take k).filter fun a => since < num a := by
  rw [List.take_append]
  rcases Nat.le_total n ((l.take split).filter fun a => since < num a).length with short | long
  · obtain ⟨k, front⟩ := exists_take_filter (fun a => decide (since < num a)) (l.take split) n
    have looked : (((l.take split).take k).filter fun a => since < num a).Pairwise
        fun a b => num a < num b :=
      increasing.sublist (List.filter_sublist.trans
        ((List.take_sublist ..).trans (List.take_sublist ..)))
    refine ⟨min k split, ?_⟩
    rw [Nat.sub_eq_zero_of_le short, List.take_zero, List.append_nil, front,
      fresh_of_increasing since looked, List.filter_filter, List.take_take]
    simp only [Bool.and_self]
  · refine ⟨max split (min (start + (n - ((l.take split).filter fun a =>
      since < num a).length)) next), ?_⟩
    rw [List.take_of_length_le long, List.take_drop, List.take_take,
      fresh_overlap increasing before inside]

end Lumencast.Foundation
