import Lumencast.Foundation.Machine
import Lumencast.Protocol.Frames

/-!
# The replay ring

A bounded ring of the most recent emissions of a scene. `since` decides from the
oldest retained record alone whether the ring covers a resume point. For records
with consecutive numbers that is exact: `ring_exact`.
-/

namespace Lumencast.Server

open Foundation Protocol

def defaultReplayBufferSize : Nat := 256

structure ReplayRecord where
  seq : Nat
  patches : List Patch
  cause : Option Cause
  deriving DecidableEq

structure ReplaySlice where
  records : List ReplayRecord
  covered : Bool
  deriving DecidableEq

structure ReplayBuffer where
  cap : Nat
  records : List ReplayRecord
  deriving DecidableEq

namespace ReplayBuffer

def new (capacity : Nat) : ReplayBuffer :=
  { cap := if capacity = 0 then defaultReplayBufferSize else capacity, records := [] }

/-- Record one emission; a full ring drops its oldest record. -/
def push (b : ReplayBuffer) (record : ReplayRecord) : ReplayBuffer :=
  { b with records := (if b.records.length = b.cap then b.records.tail else b.records) ++ [record] }

/-- The records above `sinceSeq`, if the ring covers that point. -/
def since (b : ReplayBuffer) (sinceSeq : Nat) : ReplaySlice :=
  match b.records with
  | [] => { records := [], covered := true }
  | earliest :: _ =>
      if sinceSeq + 1 < earliest.seq then { records := [], covered := false }
      else { records := b.records.filter fun r => sinceSeq < r.seq, covered := true }

/-- `since` with the successor of the resume point checked against the range of its type. -/
def sinceChecked (b : ReplayBuffer) (sinceSeq : Nat) : Option ReplaySlice :=
  match b.records with
  | [] => some { records := [], covered := true }
  | earliest :: _ => do
      let first ← unsigned 64 (sinceSeq + 1)
      if first < earliest.seq then some { records := [], covered := false }
      else some { records := b.records.filter fun r => sinceSeq < r.seq, covered := true }

/-- Record a list of emissions, one after the other. -/
def pushAll (b : ReplayBuffer) (records : List ReplayRecord) : ReplayBuffer :=
  records.foldl push b

@[simp] theorem push_cap (b : ReplayBuffer) (record : ReplayRecord) :
    (b.push record).cap = b.cap := rfl

/-- The ring is the window of the last `cap` records of a log. -/
def IsWindow (b : ReplayBuffer) (log : List ReplayRecord) : Prop :=
  b.records = log.drop (log.length - b.cap)

theorem isWindow_new (capacity : Nat) : IsWindow (new capacity) [] := by
  simp [IsWindow, new]

theorem cap_new_pos (capacity : Nat) : 0 < (new capacity).cap := by
  unfold new
  split
  · decide
  · exact Nat.pos_of_ne_zero ‹_›

/-- Pushing a record moves the window over the longer log. -/
theorem IsWindow.push {b : ReplayBuffer} {log : List ReplayRecord} (positive : 0 < b.cap)
    (window : b.IsWindow log) (record : ReplayRecord) :
    (b.push record).IsWindow (log ++ [record]) := by
  have length : b.records.length = min log.length b.cap := by
    rw [window, List.length_drop]
    omega
  unfold IsWindow ReplayBuffer.push
  simp only [List.length_append, List.length_singleton]
  by_cases full : b.records.length = b.cap
  · have long : b.cap ≤ log.length := by omega
    rw [if_pos full, window, List.tail_drop, List.drop_append_of_le_length (by omega)]
    congr 2
    omega
  · have short : log.length < b.cap := by omega
    rw [if_neg full, window, Nat.sub_eq_zero_of_le (by omega), Nat.sub_eq_zero_of_le (by omega)]
    rfl

/-- Coverage is a question about the oldest retained record. -/
theorem since_covered_iff {b : ReplayBuffer} {sinceSeq : Nat} :
    (b.since sinceSeq).covered = true ↔
      ∀ earliest ∈ b.records.head?, earliest.seq ≤ sinceSeq + 1 := by
  unfold since
  cases b.records with
  | nil => simp
  | cons earliest rest =>
      by_cases young : sinceSeq + 1 < earliest.seq
      · simp [young, Nat.not_le.mpr young]
      · simp [young, Nat.not_lt.mp young]

/-- A covered resume point answers with every retained record above it. -/
theorem since_records_of_covered {b : ReplayBuffer} {sinceSeq : Nat}
    (covered : (b.since sinceSeq).covered = true) :
    (b.since sinceSeq).records = b.records.filter fun r => sinceSeq < r.seq := by
  unfold since at covered ⊢
  split
  · next empty => simp [empty]
  · next earliest rest eq =>
    split
    · next young => simp [eq, young] at covered
    · rfl

/-- A refused resume point answers with no record. -/
theorem since_records_of_not_covered {b : ReplayBuffer} {sinceSeq : Nat}
    (refused : (b.since sinceSeq).covered = false) : (b.since sinceSeq).records = [] := by
  unfold since at refused ⊢
  split
  · rfl
  · next earliest rest eq =>
    split
    · rfl
    · next old => simp [eq, old] at refused

/-- What the window has dropped of an increasing log is not above a covered point. -/
theorem IsWindow.records_of_covered {b : ReplayBuffer} {log : List ReplayRecord} {sinceSeq : Nat}
    (positive : 0 < b.cap) (window : b.IsWindow log)
    (increasing : log.Pairwise fun r r' => r.seq < r'.seq)
    (covered : (b.since sinceSeq).covered = true) :
    (b.since sinceSeq).records = log.filter fun r => sinceSeq < r.seq := by
  let dropped := log.take (log.length - b.cap)
  have parts : dropped ++ b.records = log := by
    rw [window, List.take_append_drop]
  have old : ∀ r ∈ dropped, ¬sinceSeq < r.seq := by
    intro r hr
    cases retained : b.records with
    | nil =>
        have empty : log.length ≤ log.length - b.cap := by
          rw [← List.drop_eq_nil_iff, ← window, retained]
        have nothing : log.length - b.cap = 0 := by omega
        simp [dropped, nothing] at hr
    | cons earliest rest =>
        have reaches := since_covered_iff.mp covered earliest (by simp [retained])
        rw [← parts, retained] at increasing
        have below := (List.pairwise_append.mp increasing).2.2 r hr earliest List.mem_cons_self
        omega
  have none_above : dropped.filter (fun r => sinceSeq < r.seq) = [] :=
    List.filter_eq_nil_iff.mpr (by simpa using old)
  rw [since_records_of_covered covered, ← parts, List.filter_append, none_above, List.nil_append]

theorem sinceChecked_eq (b : ReplayBuffer) {sinceSeq : Nat} (below : sinceSeq < 2 ^ 64 - 1) :
    b.sinceChecked sinceSeq = some (b.since sinceSeq) := by
  unfold sinceChecked since
  cases b.records with
  | nil => rfl
  | cons earliest rest =>
      refine unsigned_bind_eq (sinceSeq + 1) rfl (by omega) ?_
      exact (apply_ite some ..).symm

theorem IsWindow.pushAll {b : ReplayBuffer} {log : List ReplayRecord} (positive : 0 < b.cap)
    (window : b.IsWindow log) (records : List ReplayRecord) :
    (b.pushAll records).cap = b.cap ∧ (b.pushAll records).IsWindow (log ++ records) := by
  induction records generalizing b log with
  | nil =>
      rw [List.append_nil]
      exact ⟨rfl, window⟩
  | cons record records ih =>
      have next := ih (b := b.push record) positive (window.push positive record)
      rwa [List.append_assoc, List.singleton_append] at next

/-- The numbers of the retained records. -/
theorem IsWindow.seqs_eq {b : ReplayBuffer} {log : List ReplayRecord} (window : b.IsWindow log)
    {start : Nat} (consecutive : log.map (·.seq) = List.range' start log.length) :
    b.records.map (·.seq) =
      List.range' (start + (log.length - b.cap)) (log.length - (log.length - b.cap)) := by
  rw [window, List.map_drop, consecutive, List.drop_range', Nat.mul_one]

/-- The oldest retained record decides coverage of the whole interval above a point. -/
theorem covered_iff_retained {b : ReplayBuffer} {first count sinceSeq : Nat}
    (seqs : b.records.map (·.seq) = List.range' first count)
    (reaches : 0 < count → sinceSeq < first + count) :
    (b.since sinceSeq).covered = true ↔
      count = 0 ∨ ∀ n, sinceSeq < n → n < first + count → ∃ r ∈ b.records, r.seq = n := by
  have retained (n : Nat) : (∃ r ∈ b.records, r.seq = n) ↔ first ≤ n ∧ n < first + count := by
    rw [← List.mem_range'_1, ← seqs, List.mem_map]
  have oldest : b.records.head?.map (·.seq) = if count = 0 then none else some first := by
    rw [← List.head?_map, seqs, List.head?_range']
  rw [since_covered_iff]
  simp only [retained]
  cases records : b.records with
  | nil =>
      rw [records] at seqs
      have empty : count = 0 := (List.range'_eq_nil_iff).mp seqs.symm
      simp [empty]
  | cons earliest rest =>
      rw [records] at oldest
      have nonempty : count ≠ 0 := by
        rintro rfl
        rw [if_pos rfl] at oldest
        cases oldest
      rw [if_neg nonempty] at oldest
      obtain rfl : earliest.seq = first := Option.some.inj oldest
      have reaches := reaches (Nat.pos_of_ne_zero nonempty)
      simp only [List.head?_cons, Option.mem_some_iff, forall_eq', nonempty, false_or]
      constructor
      · intro old n above within
        omega
      · intro all
        by_cases last : sinceSeq + 1 < earliest.seq + count
        · exact (all (sinceSeq + 1) (Nat.lt_succ_self _) last).1
        · omega

/-- Being at most the last of consecutive numbers. -/
theorem le_last_iff {records : List ReplayRecord} {start n : Nat} (nonempty : records ≠ [])
    (consecutive : records.map (·.seq) = List.range' start records.length) :
    (∀ last ∈ records.getLast?, n ≤ last.seq) ↔ n < start + records.length := by
  have size : records.length ≠ 0 := fun empty => nonempty (List.length_eq_zero_iff.mp empty)
  have top : records.getLast?.map (·.seq) = some (start + records.length - 1) := by
    rw [← List.getLast?_map, consecutive, List.getLast?_range', if_neg size]
  obtain ⟨last, found, seq⟩ := Option.map_eq_some_iff.mp top
  simp only [found, Option.mem_some_iff, forall_eq', seq]
  omega

theorem increasing_of_consecutive {records : List ReplayRecord} {start : Nat}
    (consecutive : records.map (·.seq) = List.range' start records.length) :
    records.Pairwise fun r r' => r.seq < r'.seq := by
  have sorted : (List.range' start records.length).Pairwise (· < ·) := List.pairwise_lt_range'
  rwa [← consecutive, List.pairwise_map] at sorted

/-- The ring is a correct bounded log: it holds the latest records, covers a point exactly if it
still has every later record, and answers with just those. -/
theorem ring_exact (capacity : Nat) {records : List ReplayRecord} {start sinceSeq : Nat}
    (consecutive : records.map (·.seq) = List.range' start records.length)
    (below : sinceSeq < 2 ^ 64 - 1) (reaches : ∀ last ∈ records.getLast?, sinceSeq ≤ last.seq) :
    let b := (new capacity).pushAll records
    let cap := if capacity = 0 then defaultReplayBufferSize else capacity
    b.records.length = min cap records.length ∧ b.records <:+ records ∧
      b.sinceChecked sinceSeq = some (b.since sinceSeq) ∧
      ((b.since sinceSeq).covered = true ↔
        records = [] ∨ ∀ n, sinceSeq < n → (∀ last ∈ records.getLast?, n ≤ last.seq) →
          ∃ r ∈ b.records, r.seq = n) ∧
      ((b.since sinceSeq).covered = true →
        (b.since sinceSeq).records = records.filter fun r => sinceSeq < r.seq) ∧
      ((b.since sinceSeq).covered = false → (b.since sinceSeq).records = []) := by
  intro b cap
  have positive := cap_new_pos capacity
  obtain ⟨bounded, window⟩ : b.cap = cap ∧ b.IsWindow ([] ++ records) :=
    (isWindow_new capacity).pushAll positive records
  rw [List.nil_append] at window
  have room : 0 < b.cap := bounded ▸ positive
  have held : b.records = records.drop (records.length - cap) := bounded ▸ window
  have increasing := increasing_of_consecutive consecutive
  refine ⟨?_, ?_, sinceChecked_eq b below, ?_, window.records_of_covered room increasing,
    since_records_of_not_covered⟩
  · rw [held, List.length_drop]
    omega
  · rw [held]
    exact List.drop_suffix ..
  · rcases eq_or_ne records [] with rfl | nonempty
    · simp [since, held]
    · have some_left : 0 < records.length := List.length_pos_iff.mpr nonempty
      have inside := (le_last_iff nonempty consecutive).mp reaches
      rw [covered_iff_retained (window.seqs_eq consecutive) (by omega)]
      have kept : records.length - (records.length - b.cap) ≠ 0 := by omega
      have top : start + (records.length - b.cap) + (records.length - (records.length - b.cap)) =
          start + records.length := by omega
      simp only [kept, nonempty, false_or, le_last_iff nonempty consecutive, top]

/-- A ring of two after three emissions numbered from 5. -/
theorem ring_exact_wrapped :
    let records : List ReplayRecord := [⟨5, [], none⟩, ⟨6, [], none⟩, ⟨7, [], none⟩]
    records.map (·.seq) = List.range' 5 records.length ∧ 5 < 2 ^ 64 - 1 ∧
      (∀ last ∈ records.getLast?, 5 ≤ last.seq) ∧
      (((new 2).pushAll records).since 5).records = [⟨6, [], none⟩, ⟨7, [], none⟩] := by
  intro records
  have consecutive : records.map (·.seq) = List.range' 5 records.length := rfl
  have below : 5 < 2 ^ 64 - 1 := by decide
  have reaches : ∀ last ∈ records.getLast?, 5 ≤ last.seq := by simp [records]
  obtain ⟨-, -, -, -, exact_records, -⟩ := ring_exact 2 consecutive below reaches
  exact ⟨consecutive, below, reaches, exact_records (by decide)⟩

end ReplayBuffer
end Lumencast.Server
