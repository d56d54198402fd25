import Mathlib.Algebra.Order.Ring.Nat
import Lumencast.Foundation.Spacing
import Lumencast.Server.Handler

/-!
# The input rate limit over a run of calls

A run feeds the limiter one clock reading after the other. The limiter cuts the
calls into windows, where a window opens at construction and then at each first
call that comes a second or more after the last opening, and admits the first
`limit` calls of every window. No interval of a second holds more than twice the
limit of admitted calls. The limit itself is kept exactly if the admitted parts
of successive windows are staggered: a call may have to wait for the call that
stands `limit` places before it, and the restart of the window lets it pass.
-/

namespace Lumencast.Server

open Foundation

namespace RateBucket

/-- The clock readings at which a run of `allow` calls answers `true`. -/
def admitted (b : RateBucket) : List Nat → List Nat
  | [] => []
  | now :: calls =>
      match b.allow now with
      | (true, next) => now :: next.admitted calls
      | (false, next) => next.admitted calls

/-- The calls of the window that is open since `windowStart`, then those of each later window. -/
def windows (windowStart : Nat) : List Nat → List (List Nat)
  | [] => [[]]
  | now :: calls =>
      if second ≤ now - windowStart then [] :: (windows now calls).modifyHead (now :: ·)
      else (windows windowStart calls).modifyHead (now :: ·)

/-- Among the first `limit` calls of a window followed by the first `limit` calls of the
next one, calls that are `limit` places apart are at least a second apart. -/
def Staggered (limit : Nat) (earlier later : List Nat) : Prop :=
  Spaced limit second (earlier.take limit ++ later.take limit)

instance (limit : Nat) (earlier later : List Nat) : Decidable (Staggered limit earlier later) :=
  inferInstanceAs (Decidable (Spaced ..))

theorem admitted_sublist (b : RateBucket) (calls : List Nat) :
    (b.admitted calls).Sublist calls := by
  induction calls generalizing b with
  | nil => exact List.Sublist.slnil
  | cons now calls ih =>
      unfold admitted
      split
      · exact (ih _).cons_cons now
      · exact (ih _).cons now

theorem exists_windows_cons (windowStart : Nat) (calls : List Nat) :
    ∃ first later, windows windowStart calls = first :: later := by
  induction calls generalizing windowStart with
  | nil => exact ⟨[], [], rfl⟩
  | cons now calls ih =>
      unfold windows
      split
      · exact ⟨_, _, rfl⟩
      · obtain ⟨first, later, eq⟩ := ih windowStart
        exact ⟨now :: first, later, by rw [eq, List.modifyHead_cons]⟩

/-- The limiter admits what is left of the open window, then the head of each later one. -/
theorem admitted_eq {b : RateBucket} (positive : 0 < b.limit) (within : b.used ≤ b.limit)
    {calls : List Nat} {first : List Nat} {later : List (List Nat)}
    (eq : windows b.windowStart calls = first :: later) :
    b.admitted calls =
      first.take (b.limit - b.used) ++ (later.map (List.take b.limit)).flatten := by
  induction calls generalizing b first later with
  | nil =>
      obtain ⟨rfl, rfl⟩ := List.cons.inj eq
      simp [admitted]
  | cons now calls ih =>
      have limited : b.limit ≠ 0 := Nat.ne_of_gt positive
      by_cases restarts : second ≤ now - b.windowStart
      · -- the call opens a window and is the first one in it
        let next : RateBucket := { b with windowStart := now, used := 1 }
        have allows : b.allow now = (true, next) := by
          simp [allow, limited, refreshed, restarts, next]
        obtain ⟨opened, rest, split⟩ := exists_windows_cons now calls
        rw [windows, if_pos restarts, split, List.modifyHead_cons] at eq
        obtain ⟨rfl, rfl⟩ := List.cons.inj eq
        have tail := @ih next positive positive opened rest split
        rw [admitted, allows, List.take_nil, List.nil_append, List.map_cons, List.flatten_cons,
          List.take_cons positive, List.cons_append]
        exact congrArg _ tail
      · obtain ⟨running, rest, split⟩ := exists_windows_cons b.windowStart calls
        rw [windows, if_neg restarts, split, List.modifyHead_cons] at eq
        obtain ⟨rfl, rfl⟩ := List.cons.inj eq
        by_cases full : b.limit ≤ b.used
        · have refuses : b.allow now = (false, b) := by
            simp [allow, limited, refreshed, restarts, full]
          rw [admitted, refuses]
          simp only [ih positive within split, Nat.sub_eq_zero_of_le full, List.take_zero]
        · let next : RateBucket := { b with used := b.used + 1 }
          have allows : b.allow now = (true, next) := by
            simp [allow, limited, refreshed, restarts, full, next]
          have tail := @ih next positive (Nat.lt_of_not_le full) running rest split
          rw [admitted, allows, List.take_cons (Nat.sub_pos_of_lt (Nat.lt_of_not_le full)),
            List.cons_append, Nat.sub_sub]
          exact congrArg _ tail

theorem admitted_new {limit : Nat} (positive : 0 < limit) (start : Nat) (calls : List Nat) :
    (new limit start).admitted calls = ((windows start calls).map (List.take limit)).flatten := by
  obtain ⟨first, later, eq⟩ := exists_windows_cons start calls
  have heads := @admitted_eq (new limit start) positive (Nat.zero_le _) calls first later eq
  rw [heads, eq]
  rfl

-- Every entry of the open window is near its opening, every later one is not before the next.
private inductive Separated : Nat → List (List Nat) → Prop where
  | single {opened : Nat} {calls : List Nat} (near : ∀ x ∈ calls, x < opened + second) :
      Separated opened [calls]
  | cons {opened next : Nat} {calls : List Nat} {later : List (List Nat)}
      (near : ∀ x ∈ calls, x < opened + second) (apart : opened + second ≤ next)
      (above : ∀ y ∈ later.flatten, next ≤ y) (rest : Separated next later) :
      Separated opened (calls :: later)

private theorem Separated.push {opened now : Nat} {windows : List (List Nat)}
    (separated : Separated opened windows) (near : now < opened + second) :
    Separated opened (windows.modifyHead (now :: ·)) := by
  cases separated with
  | single rest => exact .single (List.forall_mem_cons.mpr ⟨near, rest⟩)
  | cons rest apart above later =>
      exact .cons (List.forall_mem_cons.mpr ⟨near, rest⟩) apart above later

theorem mem_of_mem_windows {windowStart x : Nat} {calls : List Nat}
    (member : x ∈ (windows windowStart calls).flatten) : x ∈ calls := by
  induction calls generalizing windowStart with
  | nil => simp [windows] at member
  | cons now calls ih =>
      have pushed (opened : Nat)
          (member : x ∈ ((windows opened calls).modifyHead (now :: ·)).flatten) :
          x ∈ now :: calls := by
        obtain ⟨first, later, eq⟩ := exists_windows_cons opened calls
        rw [eq, List.modifyHead_cons, List.flatten_cons, List.cons_append, List.mem_cons] at member
        refine List.mem_cons.mpr (member.imp_right fun rest => @ih opened ?_)
        rwa [eq, List.flatten_cons]
      rw [windows] at member
      split at member
      · exact pushed now member
      · exact pushed windowStart member

private theorem separated_windows (windowStart : Nat) {calls : List Nat}
    (sorted : calls.Pairwise (· ≤ ·)) : Separated windowStart (windows windowStart calls) := by
  induction calls generalizing windowStart with
  | nil => exact .single (by simp)
  | cons now calls ih =>
      obtain ⟨first, rest⟩ := List.pairwise_cons.mp sorted
      rw [windows]
      split
      · next restarts =>
        have positive : 0 < second := by decide
        refine .cons (by simp) (by omega) (fun y member => ?_)
          ((ih now rest).push (Nat.lt_add_of_pos_right positive))
        obtain ⟨opened, later, eq⟩ := exists_windows_cons now calls
        rw [eq, List.modifyHead_cons, List.flatten_cons, List.cons_append, List.mem_cons] at member
        rcases member with rfl | member
        · exact Nat.le_refl y
        · exact first y (@mem_of_mem_windows now y calls (by rwa [eq, List.flatten_cons]))
      · next stays => exact (ih windowStart rest).push (by omega)

private theorem mem_of_mem_heads {limit x : Nat} {windows : List (List Nat)}
    (member : x ∈ (windows.map (List.take limit)).flatten) : x ∈ windows.flatten := by
  obtain ⟨head, taken, here⟩ := List.mem_flatten.mp member
  obtain ⟨window, listed, rfl⟩ := List.mem_map.mp taken
  exact List.mem_flatten.mpr ⟨window, listed, List.mem_of_mem_take here⟩

private theorem Separated.blocks {opened limit : Nat} {windows : List (List Nat)}
    (separated : Separated opened windows) :
    Blocks second (windows.map (List.take limit)) := by
  induction separated with
  | single => exact .single _
  | @cons opened next calls later near apart above rest ih =>
      cases rest with
      | single => exact .cons (by simp) ih
      | @cons _ third _ more _ apart' above' _ =>
          refine .cons (fun x here y member => ?_) ih
          have early := near x (List.mem_of_mem_take here)
          have late := above' y (mem_of_mem_heads member)
          omega

/-- What is admitted is spaced if the heads of successive windows are. -/
theorem spaced_admitted_iff {limit : Nat} (positive : 0 < limit) (start : Nat) {size : Nat}
    (room : limit ≤ size) {calls : List Nat} (sorted : calls.Pairwise (· ≤ ·)) :
    Spaced size second ((new limit start).admitted calls) ↔
      (windows start calls).IsChain fun earlier later =>
        Spaced size second (earlier.take limit ++ later.take limit) := by
  rw [admitted_new positive, (separated_windows start sorted).blocks.spaced_flatten_iff,
    List.isChain_map]
  intro head member
  obtain ⟨window, _, rfl⟩ := List.mem_map.mp member
  exact Nat.le_trans (List.length_take_le ..) room

/-- Whatever the alignment, a second holds at most two windows' worth of admitted calls. -/
theorem admitted_le_two_mul {limit : Nat} (positive : 0 < limit) (start : Nat) {calls : List Nat}
    (sorted : calls.Pairwise (· ≤ ·)) (t : Nat) :
    ((new limit start).admitted calls).countP (fun now => t ≤ now ∧ now < t + second) ≤
      2 * limit := by
  have ordered := sorted.sublist (admitted_sublist (new limit start) calls)
  have pairs (earlier later : List Nat) :
      Spaced (2 * limit) second (earlier.take limit ++ later.take limit) := by
    refine Spaced.of_length_le ?_
    have first := List.length_take_le limit earlier
    have next := List.length_take_le limit later
    rw [List.length_append]
    omega
  have spaced := (spaced_admitted_iff positive start (by omega) sorted).mpr
    (List.pairwise_of_forall pairs).isChain
  exact Spaced.countP_le ordered spaced t

/-- No second holds more admitted calls than the limit exactly if the admitted heads of
successive windows are staggered. -/
theorem within_limit_iff {limit : Nat} (positive : 0 < limit) (start : Nat) {calls : List Nat}
    (sorted : calls.Pairwise (· ≤ ·)) :
    (∀ t, ((new limit start).admitted calls).countP (fun now => t ≤ now ∧ now < t + second) ≤
        limit) ↔ (windows start calls).IsChain (Staggered limit) := by
  have ordered := sorted.sublist (admitted_sublist (new limit start) calls)
  rw [countP_le_iff_spaced ordered]
  exact spaced_admitted_iff positive start (Nat.le_refl limit) sorted

/-- Five calls in two windows, the third of them refused. -/
theorem within_limit_iff_spread :
    let calls := [200000000, 500000000, 700000000, 1300000000, 1600000000]
    0 < 2 ∧ calls.Pairwise (· ≤ ·) ∧
      (new 2 0).admitted calls = [200000000, 500000000, 1300000000, 1600000000] ∧
      ∀ t, ((new 2 0).admitted calls).countP (fun now => t ≤ now ∧ now < t + second) ≤ 2 := by
  have positive : 0 < 2 := by decide
  have sorted : [200000000, 500000000, 700000000, 1300000000, 1600000000].Pairwise (· ≤ ·) := by
    decide
  exact ⟨positive, sorted, by decide, (within_limit_iff positive 0 sorted).mpr (by decide)⟩

/-- A window's last admitted call and the call that restarts it may be a nanosecond apart. -/
theorem within_limit_fails :
    ¬∀ limit start : Nat, ∀ calls : List Nat, 0 < limit → calls.Pairwise (· ≤ ·) →
      (∀ now ∈ calls, start ≤ now) → ∀ t,
        ((new limit start).admitted calls).countP (fun now => t ≤ now ∧ now < t + second) ≤
          limit := by
  intro holds
  have twice := holds 1 0 [999999999, 1000000000] (by decide) (by decide) (by decide) 999999999
  exact absurd twice (by decide)

end RateBucket
end Lumencast.Server
