import Lumencast.Server.Delivery

/-!
# The numbers a connection has still to be sent

`queued` lists the numbers of the emissions behind a position of the channel, the
one in progress included. `Upcoming` says that a receiver that has come to the
number `top` finds every later number in its queue, up to the counter. Emissions
and deliveries preserve it. A number that no emission takes breaks it, unless the
receiver was sent nothing and has nothing to come.
-/

namespace Lumencast.Server

open Foundation Protocol

variable {Text : Type}

/-- The numbers of the emissions behind a position of the channel. -/
def queued (next : Nat) (s : Scene Text) (es : List Emission) : List Nat :=
  (allocated s es).drop next

/-- The numbers above `top` are queued: all of them when `top` was sent, and all
after the first one otherwise. -/
structure Upcoming (top next : Nat) (s : Scene Text) (es : List Emission) : Prop where
  within : next ≤ s.tx.sent.length
  reached : top ≤ s.seq
  follow : ∀ n, top < n → n ≤ s.seq → (1 ≤ top ∨ ∃ m ∈ queued next s es, m < n) →
    n ∈ queued next s es

/-- No number was lost to a scene change after the numbers that a resume at `since`
sends or leaves in the queue. -/
def Complete (since next : Nat) (s : Scene Text) (es : List Emission) : Prop :=
  ∀ m ∈ allocated s es, since < m ∨ m ∈ queued next s es →
    ∀ n ∈ numbersAbove m s.seq, n ∈ allocated s es

instance (since next : Nat) (s : Scene Text) (es : List Emission) :
    Decidable (Complete since next s es) :=
  inferInstanceAs (Decidable (∀ m ∈ allocated s es, _))

section Queue

variable {top next : Nat} {s s' : Scene Text} {es es' : List Emission}

theorem length_sent_le_allocated (s : Scene Text) (es : List Emission) :
    s.tx.sent.length ≤ (allocated s es).length := by
  rw [allocated, List.length_append, List.length_map]
  exact Nat.le_add_right ..

/-- A number that was handed out and is not broadcast yet is in every queue. -/
theorem mem_queued_of_not_sent (within : next ≤ s.tx.sent.length) {n : Nat}
    (handed : n ∈ allocated s es) (unsent : ∀ p ∈ s.tx.sent, p.seq ≠ n) :
    n ∈ queued next s es := by
  rw [allocated, List.mem_append] at handed
  have held := handed.resolve_left fun sent => by
    obtain ⟨p, hp, eq⟩ := List.mem_map.mp sent
    exact unsent p hp eq
  rw [queued, allocated, List.drop_append_of_le_length (by rw [List.length_map]; exact within)]
  exact List.mem_append_right _ held

/-- A number above a queued one is queued once it is handed out. -/
theorem mem_queued_of_above (sound : Sound s es) {m n : Nat} (hm : m ∈ queued next s es)
    (lt : m < n) (handed : n ∈ allocated s es) : n ∈ queued next s es := by
  rw [← List.take_append_drop next (allocated s es), List.mem_append] at handed
  refine handed.resolve_left fun early => ?_
  have sorted := sound.increasing
  rw [← List.take_append_drop next (allocated s es), List.pairwise_append] at sorted
  exact Nat.lt_asymm lt (sorted.2.2 n early m hm)

/-- The next delta has the first number of the queue. -/
theorem queued_of_recv {p : DeltaPayload} {next' : Nat}
    (received : s.tx.recv next = .message p next') :
    queued next s es = p.seq :: queued next' s es := by
  obtain ⟨_, found, rfl⟩ := Broadcast.recv_eq_message.mp received
  obtain ⟨inside, get⟩ := List.getElem?_eq_some_iff.mp found
  have inside' : next < (allocated s es).length :=
    Nat.lt_of_lt_of_le inside (length_sent_le_allocated s es)
  rw [queued, List.drop_eq_getElem_cons inside', ← queued]
  congr 1
  simp [allocated, List.getElem_append_left, inside, get]

namespace Upcoming

/-- Every number from `top` on is still to be handed out. -/
theorem read (within : next ≤ s.tx.sent.length) : Upcoming s.seq next s es where
  within := within
  reached := Nat.le_refl _
  follow := fun _ lt le => absurd lt (Nat.not_lt.mpr le)

theorem step (upcoming : Upcoming top next s es) (h : EmissionStep s es s' es') :
    Upcoming top next s' es' := by
  have within : next ≤ s'.tx.sent.length := by
    rcases h.sent_eq.2 with same | ⟨p, more⟩
    · rw [same]
      exact upcoming.within
    · rw [more, List.length_append]
      exact Nat.le_add_right_of_le upcoming.within
  refine ⟨within, Nat.le_trans upcoming.reached h.seq_le, ?_⟩
  rcases h.allocated_eq with ⟨same, seq⟩ | ⟨more, seq⟩
  · rw [queued, same, seq]
    exact upcoming.follow
  · have grown : queued next s' es' = queued next s es ++ [s.nextSeq] := by
      rw [queued, more, List.drop_append_of_le_length
        (Nat.le_trans upcoming.within (length_sent_le_allocated s es))]
      rfl
    rw [grown, seq]
    intro n above le some_before
    rw [List.mem_append, List.mem_singleton]
    by_cases last : n = s.nextSeq
    · exact .inr last
    · have old : n ≤ s.seq := Nat.le_of_lt_succ (Nat.lt_of_le_of_ne le last)
      refine .inl (upcoming.follow n above old (some_before.imp_right ?_))
      rintro ⟨m, hm, lt⟩
      refine ⟨m, ?_, lt⟩
      rw [List.mem_append, List.mem_singleton] at hm
      exact hm.resolve_right fun eq =>
        Nat.not_lt.mpr old (Nat.lt_trans (eq ▸ Nat.lt_succ_self _) lt)

/-- A number is taken by a scene change. -/
theorem change (upcoming : Upcoming top next s es) (nothing : top = 0)
    (empty : queued next s es = []) : Upcoming top next s.advanceSeq es where
  within := upcoming.within
  reached := Nat.le_succ_of_le upcoming.reached
  follow := by
    rintro n _ _ (sent | ⟨m, hm, _⟩)
    · exact absurd nothing (Nat.ne_of_gt sent)
    · rw [queued] at empty hm
      exact absurd (empty ▸ hm : m ∈ []) List.not_mem_nil

/-- The next delta skips no number, and the queue goes on behind it. -/
theorem deliver (upcoming : Upcoming top next s es) (sound : Sound s es) {p : DeltaPayload}
    {next' : Nat} (received : s.tx.recv next = .message p next') :
    (1 ≤ top → p.seq ≤ top + 1) ∧ Upcoming (max top p.seq) next' s es := by
  have queue : queued next s es = p.seq :: queued next' s es := queued_of_recv received
  have sorted : (p.seq :: queued next' s es).Pairwise (· < ·) :=
    queue ▸ sound.increasing.sublist (List.drop_sublist ..)
  obtain ⟨least, _⟩ := List.pairwise_cons.mp sorted
  obtain ⟨_, found, rfl⟩ := Broadcast.recv_eq_message.mp received
  obtain ⟨inside, get⟩ := List.getElem?_eq_some_iff.mp found
  have bound : p.seq ≤ s.seq := sound.sent_le (get ▸ List.getElem_mem inside)
  refine ⟨fun sent => ?_, inside, Nat.max_le.mpr ⟨upcoming.reached, bound⟩, ?_⟩
  · by_contra skipped
    have member := upcoming.follow (top + 1) (Nat.lt_succ_self _) (by omega) (.inl sent)
    rw [queue, List.mem_cons] at member
    rcases member with eq | later
    · omega
    · have := least _ later
      omega
  · intro n above le _
    obtain ⟨aboveTop, aboveSeq⟩ := Nat.max_lt.mp above
    have member : n ∈ queued next s es := by
      refine upcoming.follow n aboveTop le (.inr ⟨p.seq, ?_, aboveSeq⟩)
      rw [queue]
      exact List.mem_cons_self
    rw [queue, List.mem_cons] at member
    exact member.resolve_left (Nat.ne_of_gt aboveSeq)

/-- Subscribing when everything above `top` is still to be broadcast. -/
theorem land (reached : Reached True top s es) (inTime : ∀ p ∈ s.tx.sent, p.seq ≤ top) :
    Upcoming top s.tx.sent.length s es where
  within := Nat.le_refl _
  reached := reached.le
  follow := by
    intro n above le _
    have handed : n ∈ (allocated s es).filter fun m => top < m := by
      rw [reached.gapless trivial]
      exact mem_numbersAbove.mpr ⟨above, le⟩
    refine mem_queued_of_not_sent (Nat.le_refl _) (List.mem_of_mem_filter handed) ?_
    rintro p hp rfl
    exact Nat.not_lt.mpr (inTime p hp) above

end Upcoming

/-! ## Resumes -/

theorem pushed_sublist (s : Scene Text) (es : List Emission) :
    ((pushed s es).map (·.seq)).Sublist (allocated s es) := by
  have recorded : ((es.filterMap Emission.record).map (·.seq)).Sublist
      (es.filterMap Emission.number) := by
    induction es with
    | nil => exact List.Sublist.refl _
    | cons e rest ih =>
        obtain ⟨patches, cause, stage⟩ := e
        cases stage with
        | write | number => exact ih
        | push seq => exact ih.cons seq
        | send seq => exact ih.cons_cons seq
  rw [pushed, allocated, List.map_append, List.map_map]
  exact (List.Sublist.refl _).append recorded

/-- The records that a covered resume sends: all that were pushed above the point. -/
theorem records_of_covered (sound : Sound s es) {since : Nat}
    (covered : (s.replaySince since).covered = true) :
    (s.replaySince since).records = (pushed s es).filter fun r => since < r.seq :=
  sound.window.records_of_covered sound.positive
    (List.pairwise_map.mp (sound.increasing.sublist (pushed_sublist s es))) covered

/-- Only the last number handed out may not be pushed yet. -/
theorem mem_pushed_of_le (sound : Sound s es) {n k : Nat} (handed : n ∈ allocated s es)
    (recorded : k ∈ (pushed s es).map (·.seq)) (le : n ≤ k) :
    n ∈ (pushed s es).map (·.seq) := by
  cases es with
  | nil => simpa [pushed, allocated, DeltaPayload.record] using handed
  | cons e rest =>
      obtain rfl : rest = [] := by simpa using sound.single
      obtain ⟨patches, cause, stage⟩ := e
      cases stage with
      | write | number | send seq =>
          simpa [pushed, allocated, DeltaPayload.record, Emission.record, Emission.number]
            using handed
      | push seq =>
          have sorted := sound.increasing
          simp only [pushed, allocated, Emission.record, Emission.number, List.filterMap_cons,
            List.filterMap_nil, List.append_nil, List.map_map] at handed recorded sorted ⊢
          have below : k < seq :=
            (List.pairwise_append.mp sorted).2.2 k recorded seq List.mem_cons_self
          rw [List.mem_append, List.mem_singleton] at handed
          exact handed.resolve_right (by omega)

/-- The records of a complete resume have consecutive numbers, and the queue goes on
behind the last one. -/
theorem Upcoming.resume (sound : Sound s es) (within : next ≤ s.tx.sent.length) {since : Nat}
    (complete : Complete since next s es) (covered : (s.replaySince since).covered = true) :
    ∃ low high, low ≤ high ∧
      (s.replaySince since).records.map (·.seq) = numbersAbove low high ∧
      Upcoming (if low < high then high else 0) next s es := by
  have numbers : (s.replaySince since).records.map (·.seq) =
      ((pushed s es).map (·.seq)).filter fun n => since < n := by
    rw [records_of_covered sound covered, List.filter_map]
    rfl
  have part := (List.filter_sublist (p := fun n => since < n)).trans (pushed_sublist s es)
  have handed : ∀ n ∈ ((pushed s es).map (·.seq)).filter fun n => since < n,
      since < n ∧ n ∈ allocated s es := fun n hn =>
    ⟨by simpa using List.of_mem_filter hn, part.subset hn⟩
  obtain ⟨low, high, le, eq⟩ := exists_eq_numbersAbove (sound.increasing.sublist part)
    (fun n hn => sound.numbered n (handed n hn).2) (by
      intro m hm k hk n lt le
      have bound := sound.bounded k (handed k hk).2
      have between := complete m (handed m hm).2 (.inl (handed m hm).1) n
        (mem_numbersAbove.mpr ⟨lt, Nat.le_trans le bound⟩)
      have recorded := mem_pushed_of_le sound between (List.mem_of_mem_filter hk) le
      exact List.mem_filter.mpr ⟨recorded, decide_eq_true (Nat.lt_trans (handed m hm).1 lt)⟩)
  refine ⟨low, high, le, numbers.trans eq, within, ?_, ?_⟩
  · split
    · next lt =>
      have last : high ∈ ((pushed s es).map (·.seq)).filter fun n => since < n := by
        rw [eq]
        exact mem_numbersAbove.mpr ⟨lt, Nat.le_refl _⟩
      exact sound.bounded high (handed high last).2
    · exact Nat.zero_le _
  · intro n above le some_before
    split at above
    · next lt =>
      have last : high ∈ ((pushed s es).map (·.seq)).filter fun n => since < n := by
        rw [eq]
        exact mem_numbersAbove.mpr ⟨lt, Nat.le_refl _⟩
      obtain ⟨later, known⟩ := handed high last
      have next_handed := complete high known (.inl later) n (mem_numbersAbove.mpr ⟨above, le⟩)
      refine mem_queued_of_not_sent within next_handed ?_
      rintro p hp rfl
      have recorded : p.seq ∈ (pushed s es).map (·.seq) := by
        rw [pushed, List.map_append, List.map_map]
        exact List.mem_append_left _ (List.mem_map_of_mem hp)
      have member : p.seq ∈ ((pushed s es).map (·.seq)).filter fun n => since < n :=
        List.mem_filter.mpr ⟨recorded, decide_eq_true (Nat.lt_trans later above)⟩
      rw [eq] at member
      exact Nat.not_lt.mpr (mem_numbersAbove.mp member).2 above
    · next empty =>
      rw [if_neg empty] at some_before
      obtain ⟨m, hm, lt⟩ := some_before.resolve_left (by omega)
      have next_handed := complete m (List.mem_of_mem_drop hm) (.inr hm) n
        (mem_numbersAbove.mpr ⟨lt, le⟩)
      exact mem_queued_of_above sound hm lt next_handed

end Queue
end Lumencast.Server
