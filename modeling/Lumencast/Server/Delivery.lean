import Lumencast.Server.World

/-!
# What a connection receives of a scene

A connection reads the number of its snapshot before the state of it, and it
subscribes to the deltas before both in the handshake and after both in a swap.
`Follows` is the invariant over these steps, for one scene with one emitter at a
time: what the snapshot and the delivered deltas add up to, at every point
between two locked steps of the emitter.

With `steady` the scene's counter is moved by emissions alone, and the delivered
numbers are consecutive.
-/

namespace Lumencast.Server

open Foundation Protocol

variable {Text : Type}

/-- The snapshot that a frame carries. -/
def snapshotOf : ServerFrame → Option Snapshot
  | .snapshot s => some s
  | _ => none

/-- The latest snapshot among frames sent, and the frames sent after it. -/
def latestSnapshot : List ServerFrame → Option (Snapshot × List ServerFrame)
  | [] => none
  | f :: rest => (latestSnapshot rest).or ((snapshotOf f).map fun s => (s, rest))

/-- The delta that a frame carries. -/
def deltaOf : ServerFrame → Option Delta
  | .delta d => some d
  | _ => none

/-- The deltas among frames. -/
def deltasOf (frames : List ServerFrame) : List Delta := frames.filterMap deltaOf

/-- The pairs that a delta frame writes. -/
def deltaBatch (d : Delta) : List (String × Value) := writes d.patches

@[simp] theorem deltasOf_nil : deltasOf [] = [] := rfl

@[simp] theorem deltasOf_append (l r : List ServerFrame) :
    deltasOf (l ++ r) = deltasOf l ++ deltasOf r :=
  List.filterMap_append

@[simp] theorem deltaBatch_frame (p : DeltaPayload) : deltaBatch p.frame = p.batch := rfl

@[simp] theorem frame_seq (p : DeltaPayload) : p.frame.seq = p.seq := rfl

theorem latestSnapshot_snapshot (frames : List ServerFrame) (s : Snapshot) :
    latestSnapshot (frames ++ [.snapshot s]) = some (s, []) := by
  induction frames with
  | nil => rfl
  | cons f rest ih => rw [List.cons_append, latestSnapshot, ih, Option.some_or]

/-- Any other frame is sent after the snapshot. -/
theorem latestSnapshot_concat {frames : List ServerFrame} {f : ServerFrame}
    (other : snapshotOf f = none) :
    latestSnapshot (frames ++ [f]) = (latestSnapshot frames).map fun x => (x.1, x.2 ++ [f]) := by
  induction frames with
  | nil => simp [latestSnapshot, other]
  | cons g rest ih =>
      rw [List.cons_append, latestSnapshot, ih, latestSnapshot]
      cases latestSnapshot rest <;> cases snapshotOf g <;> rfl

theorem latestSnapshot_eq_none {frames : List ServerFrame}
    (none_sent : ∀ f ∈ frames, snapshotOf f = none) : latestSnapshot frames = none := by
  induction frames with
  | nil => rfl
  | cons f rest ih =>
      rw [latestSnapshot, ih fun g hg => none_sent g (List.mem_cons_of_mem f hg),
        none_sent f List.mem_cons_self]
      rfl

/-- The answer with the ring holds no snapshot. -/
theorem latestSnapshot_replayed (records : List ReplayRecord) :
    latestSnapshot (records.map fun r => .delta r.frame) = none := by
  refine latestSnapshot_eq_none fun f member => ?_
  obtain ⟨record, _, rfl⟩ := List.mem_map.mp member
  rfl

/-- A number that has been read from the counter of a scene. -/
structure Reached (steady : Prop) (since : Nat) (s : Scene Text) (es : List Emission) : Prop where
  positive : 1 ≤ since
  le : since ≤ s.seq
  gapless : steady →
    (allocated s es).filter (fun n => since < n) = numbersAbove since s.seq

namespace Reached

variable {steady : Prop} {since : Nat} {s s' : Scene Text} {es es' : List Emission}

theorem read (sound : Sound s es) : Reached steady s.seq s es where
  positive := sound.started
  le := Nat.le_refl _
  gapless := by
    intro _
    rw [numbersAbove_eq_nil (Nat.le_refl _)]
    exact List.filter_eq_nil_iff.mpr fun n hn => by simpa using sound.bounded n hn

theorem step (reached : Reached steady since s es) (h : EmissionStep s es s' es') :
    Reached steady since s' es' where
  positive := reached.positive
  le := Nat.le_trans reached.le h.seq_le
  gapless := by
    intro st
    rcases h.allocated_eq with ⟨same, seq⟩ | ⟨more, seq⟩
    · rw [same, seq]
      exact reached.gapless st
    · have above : since < s.nextSeq := Nat.lt_succ_of_le reached.le
      have next : numbersAbove since s.nextSeq = numbersAbove since s.seq ++ [s.nextSeq] :=
        numbersAbove_succ reached.le
      rw [more, seq, List.filter_append, reached.gapless st, next,
        List.filter_cons_of_pos (by simpa using above), List.filter_nil]

theorem change (reached : Reached steady since s es) (unsteady : ¬steady) :
    Reached steady since s.advanceSeq es where
  positive := reached.positive
  le := Nat.le_succ_of_le reached.le
  gapless := fun st => absurd st unsteady

end Reached

/-- A snapshot and the frames sent after it, against the scene: the deltas sent are
those between the positions `start` and `next` of the channel. -/
structure Synced (steady : Prop) (S : Snapshot) (later : List ServerFrame) (start next : Nat)
    (s : Scene Text) (es : List Emission) : Prop where
  reached : Reached steady S.seq s es
  folds : FoldsTo S.seq S.state s es
  rebuilds : RebuildsFrom start S.state s es
  ordered : start ≤ next
  within : next ≤ s.tx.sent.length
  earlier : ∀ p ∈ s.tx.sent.take start, p.seq ≤ S.seq
  delivered : deltasOf later = ((s.tx.sent.take next).drop start).map DeltaPayload.frame

namespace Synced

variable {steady : Prop} {S : Snapshot} {later : List ServerFrame} {start next : Nat}
  {s s' : Scene Text} {es es' : List Emission}

theorem step (synced : Synced steady S later start next s es) (h : EmissionStep s es s' es') :
    Synced steady S later start next s' es' := by
  have startWithin := Nat.le_trans synced.ordered synced.within
  obtain ⟨extra, grown⟩ : ∃ extra, s'.tx.sent = s.tx.sent ++ extra := by
    rcases h.sent_eq.2 with same | ⟨p, more⟩
    · exact ⟨[], by rw [same, List.append_nil]⟩
    · exact ⟨[p], more⟩
  refine ⟨synced.reached.step h, synced.folds.step synced.reached.le h,
    synced.rebuilds.step startWithin h, synced.ordered, ?_, ?_, ?_⟩
  · rw [grown, List.length_append]
    exact Nat.le_add_right_of_le synced.within
  · rw [grown, List.take_append_of_le_length startWithin]
    exact synced.earlier
  · rw [grown, List.take_append_of_le_length synced.within]
    exact synced.delivered

theorem change (synced : Synced steady S later start next s es) (unsteady : ¬steady) :
    Synced steady S later start next s.advanceSeq es :=
  ⟨synced.reached.change unsteady, synced.folds, synced.rebuilds, synced.ordered, synced.within,
    synced.earlier, synced.delivered⟩

/-- A frame that carries no delta leaves the account as it is. -/
theorem other (synced : Synced steady S later start next s es) {f : ServerFrame}
    (carries : deltaOf f = none) : Synced steady S (later ++ [f]) start next s es :=
  { synced with delivered := by simpa [deltasOf, carries] using synced.delivered }

theorem deliver (synced : Synced steady S later start next s es) {p : DeltaPayload} {next' : Nat}
    (received : s.tx.recv next = .message p next') :
    Synced steady S (later ++ [.delta p.frame]) start next' s es := by
  have taken := Broadcast.take_succ_of_recv received
  obtain ⟨_, found, rfl⟩ := Broadcast.recv_eq_message.mp received
  have inside := (List.getElem?_eq_some_iff.mp found).1
  have length : (s.tx.sent.take next).length = next := by
    rw [List.length_take]
    exact Nat.min_eq_left synced.within
  refine { synced with
    ordered := Nat.le_succ_of_le synced.ordered, within := inside, delivered := ?_ }
  rw [taken, List.drop_append_of_le_length (by rw [length]; exact synced.ordered),
    List.map_append, ← synced.delivered]
  simp [deltasOf, deltaOf]

/-- Deltas above the snapshot's number are either sent or still queued. -/
theorem sent_or_queued (synced : Synced steady S later start next s es) {p : DeltaPayload}
    (hp : p ∈ s.tx.sent) (above : S.seq < p.seq) :
    ServerFrame.delta p.frame ∈ later ∨ p ∈ s.tx.sent.drop next := by
  rw [← List.take_append_drop next s.tx.sent, List.mem_append] at hp
  refine hp.imp_left fun taken => ?_
  have position : p ∈ (s.tx.sent.take next).drop start := by
    rw [← List.take_append_drop start (s.tx.sent.take next), List.mem_append] at taken
    refine taken.resolve_left fun early => ?_
    rw [List.take_take, Nat.min_eq_left synced.ordered] at early
    exact Nat.not_le.mpr above (synced.earlier p early)
  have member : p.frame ∈ deltasOf later := by
    rw [synced.delivered]
    exact List.mem_map_of_mem position
  obtain ⟨f, hf, carries⟩ := List.mem_filterMap.mp member
  cases f <;> simp_all [deltaOf]

/-- The deltas sent with numbers above the snapshot's. -/
theorem delivered_above (synced : Synced steady S later start next s es) :
    (deltasOf later).filter (fun d => S.seq < d.seq) =
      ((s.tx.sent.take next).filter fun p => S.seq < p.seq).map DeltaPayload.frame := by
  have none_early : (s.tx.sent.take start).filter (fun p => S.seq < p.seq) = [] :=
    List.filter_eq_nil_iff.mpr fun p hp => by simpa using synced.earlier p hp
  have parts : s.tx.sent.take next =
      s.tx.sent.take start ++ (s.tx.sent.take next).drop start := by
    conv_lhs => rw [← List.take_append_drop start (s.tx.sent.take next), List.take_take,
      Nat.min_eq_left synced.ordered]
  rw [synced.delivered, parts, List.filter_append, none_early, List.nil_append, List.filter_map]
  rw [← parts]
  rfl

/-- They are consecutive, from the first number above the snapshot's. -/
theorem delivered_numbers (synced : Synced steady S later start next s es) (st : steady) :
    let above := (deltasOf later).filter fun d => S.seq < d.seq
    above.map (·.seq) = numbersAbove S.seq (S.seq + above.length) := by
  have front : ((s.tx.sent.take next).filter fun p => S.seq < p.seq).map (·.seq) <+:
      numbersAbove S.seq s.seq := by
    have all : (s.tx.sent.filter fun p => S.seq < p.seq).map (·.seq) <+:
        numbersAbove S.seq s.seq := by
      rw [← synced.reached.gapless st, allocated, List.filter_append, List.filter_map]
      exact List.prefix_append _ _
    exact (((List.take_prefix next s.tx.sent).filter _).map _).trans all
  intro above
  have eq : above.map (·.seq) =
      ((s.tx.sent.take next).filter fun p => S.seq < p.seq).map (·.seq) := by
    simp only [above, synced.delivered_above, List.map_map]
    rfl
  have len : above.length = (above.map (·.seq)).length := (List.length_map _).symm
  rw [len, eq]
  exact eq_numbersAbove_of_prefix front

/-- When the emitter is idle and nothing is queued, the snapshot and the deltas above
its number give the store. -/
theorem folds_of_drained (synced : Synced steady S later start next s [])
    (drained : s.tx.sent.length ≤ next) :
    overwrite S.state (writesOf (((deltasOf later).filter fun d => S.seq < d.seq).map
      deltaBatch)) = s.store := by
  have whole : s.tx.sent.take next = s.tx.sent := List.take_of_length_le drained
  rw [synced.delivered_above, whole, List.map_map]
  have folds := synced.folds
  rw [FoldsTo, pending, List.filter_nil, List.map_nil, List.append_nil] at folds
  exact folds

/-- The same for all deltas sent after the snapshot. -/
theorem rebuilds_of_drained (synced : Synced steady S later start next s [])
    (drained : s.tx.sent.length ≤ next) :
    overwrite S.state (writesOf ((deltasOf later).map deltaBatch)) = s.store := by
  have whole : s.tx.sent.take next = s.tx.sent := List.take_of_length_le drained
  rw [synced.delivered, whole, List.map_map]
  have rebuilds := synced.rebuilds
  rw [RebuildsFrom, written, List.filter_nil, List.map_nil, List.append_nil] at rebuilds
  exact rebuilds

end Synced
end Lumencast.Server
