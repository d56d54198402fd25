import Mathlib.Data.List.Induction
import Lumencast.Foundation.Numbers
import Lumencast.Protocol.Sequence

/-!
# Runs of the sequence tracker

A run feeds numbers to a tracker one by one; a call that fails leaves it as it
was. What is accepted is one interval of numbers, in order and each once, and
the state of the tracker is its upper end. A stream that counts from one on, with
losses and with repeats of what was sent, is accepted on first occurrences up to
the first hole.
-/

namespace Lumencast.Protocol

open Foundation

namespace SequenceTracker

/-- The answer of one call. -/
def answer (t : SequenceTracker) (seq : Nat) : Except LumencastError Observation :=
  (t.observeSeq seq).map Prod.fst

/-- The tracker after one call. -/
def next (t : SequenceTracker) (seq : Nat) : SequenceTracker :=
  match t.observeSeq seq with
  | .ok (_, t) => t
  | .error _ => t

/-- The tracker after a run. -/
def after (t : SequenceTracker) (seqs : List Nat) : SequenceTracker := seqs.foldl next t

/-- The numbers of a run that are answered `accepted`, in order. -/
def accepted (t : SequenceTracker) : List Nat → List Nat
  | [] => []
  | seq :: seqs =>
      match t.observeSeq seq with
      | .ok (.accepted, t) => seq :: t.accepted seqs
      | .ok (_, t) => t.accepted seqs
      | .error _ => t.accepted seqs

/-- A tracker that has seen a number accepts its successors in turn. -/
theorem accepted_of_seen {t : SequenceTracker} (seen : 1 ≤ t.last) (seqs : List Nat) :
    t.last ≤ (t.after seqs).last ∧ t.accepted seqs = numbersAbove t.last (t.after seqs).last := by
  induction seqs generalizing t with
  | nil => exact ⟨Nat.le_refl _, (numbersAbove_eq_nil (Nat.le_refl _)).symm⟩
  | cons seq seqs ih =>
      rw [after, List.foldl_cons, ← after, next, accepted]
      rcases t.observeSeq_cases seq with ⟨fresh, _⟩ | ⟨fresh, _⟩ | ⟨_, _, answer⟩ |
        ⟨_, rfl, answer⟩ | ⟨_, _, answer⟩
      · exact absurd fresh (Nat.ne_of_gt seen)
      · exact absurd fresh (Nat.ne_of_gt seen)
      · simp only [answer]
        exact ih seen
      · simp only [answer]
        obtain ⟨le, rest⟩ := @ih ⟨t.last + 1⟩ (Nat.le_add_left 1 _)
        have lt : t.last < (after ⟨t.last + 1⟩ seqs).last := le
        exact ⟨Nat.le_of_lt lt, by rw [rest, numbersAbove_eq_cons lt]⟩
      · simp only [answer]
        exact ih seen

/-- A fresh tracker starts at the first positive number. -/
theorem accepted_new (seqs : List Nat) :
    (new.after seqs).last = 0 ∧ new.accepted seqs = [] ∨
      ∃ b, 1 ≤ b ∧ b ≤ (new.after seqs).last ∧
        new.accepted seqs = List.range' b ((new.after seqs).last + 1 - b) := by
  induction seqs with
  | nil => exact .inl ⟨rfl, rfl⟩
  | cons seq seqs ih =>
      rw [after, List.foldl_cons, ← after, next, accepted]
      rcases Nat.eq_zero_or_pos seq with rfl | positive
      · exact ih
      · simp only [new, observeSeq_fresh positive]
        obtain ⟨le, rest⟩ := @accepted_of_seen ⟨seq⟩ positive seqs
        refine .inr ⟨seq, positive, le, ?_⟩
        rw [rest, numbersAbove, Nat.succ_sub le, List.range'_succ]

theorem accepted_eq_nil_iff (seqs : List Nat) :
    new.accepted seqs = [] ↔ (new.after seqs).last = 0 := by
  rcases accepted_new seqs with ⟨zero, none⟩ | ⟨b, positive, le, some⟩
  · exact iff_of_true none zero
  · refine iff_of_false (fun none => ?_) (by omega)
    rw [none, eq_comm, List.range'_eq_nil_iff] at some
    omega

section Answers

variable {t : SequenceTracker} {seq : Nat}

theorem answer_duplicate_iff : t.answer seq = .ok .duplicate ↔ 1 ≤ t.last ∧ seq ≤ t.last := by
  rcases t.observeSeq_cases seq with ⟨zero, rfl, eq⟩ | ⟨zero, positive, eq⟩ | ⟨seen, old, eq⟩ |
    ⟨seen, rfl, eq⟩ | ⟨seen, skipped, eq⟩ <;> simp [answer, eq, Except.map] <;> omega

theorem answer_gap_iff : (∃ expected, t.answer seq = .error (.sequenceGap expected seq)) ↔
    1 ≤ t.last ∧ t.last + 1 < seq ∨ t.last = 0 ∧ seq = 0 := by
  rcases t.observeSeq_cases seq with ⟨zero, rfl, eq⟩ | ⟨zero, positive, eq⟩ | ⟨seen, old, eq⟩ |
    ⟨seen, rfl, eq⟩ | ⟨seen, skipped, eq⟩ <;> simp [answer, eq, Except.map] <;> omega

theorem next_eq_self (refused : t.answer seq ≠ .ok .accepted) : t.next seq = t := by
  rcases t.observeSeq_cases seq with ⟨-, -, eq⟩ | ⟨-, -, eq⟩ | ⟨-, -, eq⟩ | ⟨-, -, eq⟩ |
    ⟨-, -, eq⟩ <;> simp_all [answer, next, Except.map]

end Answers

theorem after_concat (t : SequenceTracker) (seqs : List Nat) (seq : Nat) :
    t.after (seqs ++ [seq]) = (t.after seqs).next seq := by
  rw [after, List.foldl_concat, after]

/-- The stream sends the fresh values in order, with repeats of values that were sent. -/
inductive Repeating : List Nat → List Nat → List Nat → Prop where
  | nil (sent : List Nat) : Repeating sent [] []
  | fresh {sent fresh stream : List Nat} {v : Nat} (rest : Repeating (v :: sent) fresh stream) :
      Repeating sent (v :: fresh) (v :: stream)
  | again {sent fresh stream : List Nat} {v : Nat} (member : v ∈ sent)
      (rest : Repeating sent fresh stream) : Repeating sent fresh (v :: stream)

/-- A stream that counts from one on, with some numbers left out and some sent again. -/
def CountsUp (stream : List Nat) : Prop :=
  ∃ n kept, kept.Sublist (List.range' 1 n) ∧ Repeating [] kept stream

/-- No number is missing between two that are there. -/
def Unbroken (l : List Nat) : Prop := ∀ x ∈ l, ∀ y ∈ l, ∀ z, x ≤ z → z ≤ y → z ∈ l

theorem mem_concat_of_mem {α : Type} {l : List α} {v : α} (member : v ∈ l) {x : α} :
    x ∈ l ++ [v] ↔ x ∈ l := by
  rw [List.mem_append, List.mem_singleton, or_iff_left_iff_imp]
  rintro rfl
  exact member

/-- A value is a repeat or above everything that was sent. -/
theorem Repeating.again_or_above {sent fresh stream : List Nat}
    (repeating : Repeating sent fresh stream) (sorted : fresh.Pairwise (· < ·))
    (above : ∀ x ∈ sent, ∀ y ∈ fresh, x < y)
    {before rest : List Nat} {v : Nat} (split : stream = before ++ v :: rest) :
    v ∈ sent ++ before ∨ v ∈ fresh ∧ ∀ x ∈ sent ++ before, x < v := by
  induction repeating generalizing before with
  | nil => simp at split
  | @fresh sent fresh stream u repeating ih =>
      obtain ⟨first, later⟩ := List.pairwise_cons.mp sorted
      cases before with
      | nil =>
          obtain ⟨rfl, rfl⟩ := List.cons.inj split
          rw [List.append_nil]
          exact .inr ⟨List.mem_cons_self, fun x member => above x member u List.mem_cons_self⟩
      | cons w before =>
          obtain ⟨rfl, tail⟩ := List.cons.inj split
          have above' : ∀ x ∈ u :: sent, ∀ y ∈ fresh, x < y :=
            List.forall_mem_cons.mpr
              ⟨first, fun x member y here => above x member y (List.mem_cons_of_mem u here)⟩
          have swap (x : Nat) : x ∈ u :: sent ++ before ↔ x ∈ sent ++ u :: before := by
            simp only [List.mem_append, List.mem_cons]
            tauto
          rcases ih later above' tail with member | ⟨here, below⟩
          · exact .inl ((swap v).mp member)
          · exact .inr ⟨List.mem_cons_of_mem u here, fun x member => below x ((swap x).mpr member)⟩
  | @again sent fresh stream u member repeating ih =>
      cases before with
      | nil =>
          obtain ⟨rfl, rfl⟩ := List.cons.inj split
          exact .inl (List.mem_append_left _ member)
      | cons w before =>
          obtain ⟨rfl, tail⟩ := List.cons.inj split
          have swap (x : Nat) : x ∈ sent ++ u :: before ↔ x ∈ sent ++ before := by
            simp only [List.mem_append, List.mem_cons]
            constructor
            · rintro (here | rfl | here)
              · exact .inl here
              · exact .inl member
              · exact .inr here
            · rintro (here | here)
              · exact .inl here
              · exact .inr (.inr here)
          rcases ih sorted above tail with here | ⟨here, below⟩
          · exact .inl ((swap v).mpr here)
          · exact .inr ⟨here, fun x member => below x ((swap x).mp member)⟩

theorem CountsUp.again_or_above {stream before rest : List Nat} {v : Nat}
    (counts : CountsUp stream) (split : stream = before ++ v :: rest) :
    v ∈ before ∨ 1 ≤ v ∧ ∀ x ∈ before, x < v := by
  obtain ⟨n, kept, sub, repeating⟩ := counts
  have sorted : kept.Pairwise (· < ·) := List.Pairwise.sublist sub List.pairwise_lt_range'
  rcases repeating.again_or_above sorted (by simp) split with member | ⟨here, below⟩
  · exact .inl member
  · exact .inr ⟨(List.mem_range'_1.mp (sub.subset here)).1, below⟩

/-- Up to the first hole the tracker stands at the largest number so far. -/
structure AtTop (t : SequenceTracker) (before : List Nat) : Prop where
  mem : t.last ∈ before ∨ before = [] ∧ t.last = 0
  le : ∀ x ∈ before, x ≤ t.last
  pos : ∀ x ∈ before, 1 ≤ x

section AtTop

variable {t : SequenceTracker} {before : List Nat} {v : Nat}

/-- A number that was sent before is a duplicate. -/
theorem AtTop.answer_again (top : AtTop t before) (member : v ∈ before) :
    t.answer v = .ok .duplicate :=
  answer_duplicate_iff.mpr ⟨Nat.le_trans (top.pos v member) (top.le v member), top.le v member⟩

theorem AtTop.answer_first (top : AtTop t before) (positive : 1 ≤ v) (above : ∀ x ∈ before, x < v)
    (unbroken : Unbroken (before ++ [v])) : t.observeSeq v = .ok (.accepted, ⟨v⟩) := by
  rcases top.mem with last | ⟨-, zero⟩
  · have below := above _ last
    have between := unbroken t.last (List.mem_append_left _ last) v List.mem_concat_self
      (t.last + 1) (Nat.le_succ _) below
    rcases List.mem_append.mp between with early | here
    · exact absurd (top.le _ early) (Nat.not_succ_le_self _)
    · rw [← List.mem_singleton.mp here]
      exact t.observeSeq_next
  · obtain rfl : t = ⟨0⟩ := by rw [← zero]
    exact observeSeq_fresh positive

/-- The first number behind a hole is a gap. -/
theorem AtTop.answer_skipped (top : AtTop t before) (above : ∀ x ∈ before, x < v)
    (whole : Unbroken before) (broken : ¬Unbroken (before ++ [v])) :
    t.answer v = .error (.sequenceGap (t.last + 1) v) := by
  rcases top.mem with last | ⟨rfl, -⟩
  · have seen := top.pos _ last
    have skipped : t.last + 1 < v := by
      refine Nat.lt_of_le_of_ne (above _ last) fun succ => broken ?_
      -- without a hole the new number only extends the interval by one
      intro x hx y hy z low high
      simp only [List.mem_append, List.mem_singleton] at hx hy ⊢
      by_cases inside : z ≤ t.last
      · rcases hx with hx | rfl
        · exact .inl (whole x hx _ last z low inside)
        · omega
      · have top_le : y ≤ v := by
          rcases hy with hy | rfl
          · exact Nat.le_of_lt (above y hy)
          · exact Nat.le_refl _
        exact .inr (by omega)
    simp [answer, observeSeq_gap seen skipped, Except.map]
  · exact absurd (by simp [Unbroken]; omega) broken

end AtTop

theorem CountsUp.unbroken_front {stream before rest : List Nat} {v : Nat}
    (counts : CountsUp stream) (split : stream = before ++ v :: rest)
    (whole : Unbroken (before ++ [v])) : Unbroken before := by
  intro x hx y hy z low high
  have between := whole x (List.mem_append_left _ hx) y (List.mem_append_left _ hy) z low high
  rcases List.mem_append.mp between with early | last
  · exact early
  · obtain rfl := List.mem_singleton.mp last
    rcases counts.again_or_above split with member | ⟨-, above⟩
    · exact member
    · exact absurd (above y hy) (Nat.not_lt.mpr high)

theorem CountsUp.atTop {stream before rest : List Nat} (counts : CountsUp stream)
    (split : stream = before ++ rest) (whole : Unbroken before) :
    AtTop (new.after before) before := by
  induction before using List.reverseRecOn generalizing rest with
  | nil => exact ⟨.inr ⟨rfl, rfl⟩, by simp, by simp⟩
  | append_singleton before v ih =>
      rw [List.append_assoc, List.singleton_append] at split
      have top := ih split (counts.unbroken_front split whole)
      rw [after_concat]
      rcases counts.again_or_above split with member | ⟨positive, above⟩
      · have stays : (new.after before).next v = new.after before :=
          next_eq_self (by simp [top.answer_again member])
        rw [stays]
        refine ⟨.inl ((mem_concat_of_mem member).mpr ?_),
          fun x here => top.le x ((mem_concat_of_mem member).mp here),
          fun x here => top.pos x ((mem_concat_of_mem member).mp here)⟩
        exact top.mem.resolve_right fun empty => List.not_mem_nil (empty.1 ▸ member)
      · have moves : (new.after before).next v = ⟨v⟩ := by
          rw [next, top.answer_first positive above whole]
        rw [moves]
        refine ⟨.inl List.mem_concat_self, ?_, ?_⟩
        · rintro x here
          rcases List.mem_append.mp here with early | last
          · exact Nat.le_of_lt (above x early)
          · exact Nat.le_of_eq (List.mem_singleton.mp last)
        · rintro x here
          rcases List.mem_append.mp here with early | last
          · exact top.pos x early
          · exact List.mem_singleton.mp last ▸ positive

/-- A stream that counts up is accepted on first occurrences until a number is missing, and the
first new number behind the hole is a gap. -/
theorem CountsUp.answer {stream before rest : List Nat} {v : Nat} (counts : CountsUp stream)
    (split : stream = before ++ v :: rest) (whole : Unbroken before) :
    (v ∈ before → (new.after before).answer v = .ok .duplicate) ∧
      (v ∉ before → Unbroken (before ++ [v]) → (new.after before).answer v = .ok .accepted) ∧
      (¬Unbroken (before ++ [v]) →
        (new.after before).answer v = .error (.sequenceGap ((new.after before).last + 1) v)) := by
  have top := counts.atTop split whole
  refine ⟨top.answer_again, fun first unbroken => ?_, fun broken => ?_⟩
  · obtain ⟨positive, above⟩ := (counts.again_or_above split).resolve_left first
    rw [SequenceTracker.answer, top.answer_first positive above unbroken]
    rfl
  · rcases counts.again_or_above split with member | ⟨-, above⟩
    · refine absurd (fun x hx y hy z low high => ?_) broken
      rw [mem_concat_of_mem member] at hx hy ⊢
      exact whole x hx y hy z low high
    · exact top.answer_skipped above whole broken

/-- The tracker accepts one interval of numbers in order and each once, answers by comparing
with its upper end, and never forms a successor that does not exist. -/
theorem tracker_exact {seqs : List Nat} (fits : ∀ seq ∈ seqs, seq < 2 ^ 64) :
    ((new.after seqs).last = 0 ∧ new.accepted seqs = [] ∨
        ∃ b, 1 ≤ b ∧ b ≤ (new.after seqs).last ∧
          new.accepted seqs = List.range' b ((new.after seqs).last + 1 - b)) ∧
      (∀ before seq rest, seqs = before ++ seq :: rest →
        let t := new.after before
        t.observeSeqChecked seq = some (t.observeSeq seq) ∧
          (t.answer seq = .ok .duplicate ↔ new.accepted before ≠ [] ∧ seq ≤ t.last) ∧
          ((∃ expected, t.answer seq = .error (.sequenceGap expected seq)) ↔
            new.accepted before ≠ [] ∧ t.last + 1 < seq ∨ new.accepted before = [] ∧ seq = 0) ∧
          (t.answer seq ≠ .ok .accepted → t.next seq = t)) ∧
      (CountsUp seqs → ∀ before v rest, seqs = before ++ v :: rest → Unbroken before →
        (v ∈ before → (new.after before).answer v = .ok .duplicate) ∧
          (v ∉ before → Unbroken (before ++ [v]) →
            (new.after before).answer v = .ok .accepted) ∧
          (¬Unbroken (before ++ [v]) → (new.after before).answer v =
            .error (.sequenceGap ((new.after before).last + 1) v))) := by
  refine ⟨accepted_new seqs, fun before seq rest split => ?_,
    fun counts before v rest split whole => counts.answer split whole⟩
  have seen : new.accepted before ≠ [] ↔ 1 ≤ (new.after before).last := by
    rw [Ne, accepted_eq_nil_iff, Nat.one_le_iff_ne_zero]
  refine ⟨observeSeqChecked_eq _ (fits seq (by simp [split])), ?_, ?_, next_eq_self⟩
  · rw [answer_duplicate_iff, seen]
  · rw [answer_gap_iff, seen, accepted_eq_nil_iff]

/-- The loss of 4 shows at 5, and the repeat of 2 does not. -/
theorem tracker_exact_lossy :
    (∀ seq ∈ [2, 3, 2, 5], seq < 2 ^ 64) ∧ CountsUp [2, 3, 2, 5] ∧
      (new.after [2, 3, 2]).answer 5 = .error (.sequenceGap 4 5) := by
  have fits : ∀ seq ∈ [2, 3, 2, 5], seq < 2 ^ 64 := by decide
  have counts : CountsUp [2, 3, 2, 5] :=
    ⟨5, [2, 3, 5], by decide, .fresh (.fresh (.again (by decide) (.fresh (.nil _))))⟩
  have whole : Unbroken [2, 3, 2] := by
    intro x hx y hy z low high
    simp only [List.mem_cons, List.not_mem_nil, or_false] at hx hy ⊢
    omega
  have broken : ¬Unbroken ([2, 3, 2] ++ [5]) := fun unbroken =>
    absurd (unbroken 3 (by decide) 5 (by decide) 4 (by decide) (by decide)) (by decide)
  obtain ⟨-, -, streams⟩ := tracker_exact fits
  exact ⟨fits, counts, (streams counts [2, 3, 2] 5 [] rfl whole).2.2 broken⟩

end SequenceTracker
end Lumencast.Protocol
