import Lumencast.Server.ResumeDelivery

/-!
# Resuming over a retained state

A client that disconnects keeps the state it has folded, with the number `n` of its last
frame, and subscribes again with `since_sequence` `n`. The handler compares `n` with the
ring of the scene that it resolves then. As long as this is the scene object whose frames
the client folded, what the handler and the queue send brings the retained state to the
store. Numbers of another scene object say nothing about that state, and the handler does
not see the difference.

`Retains` is the client: what it has, by the frames that it was sent. `Grounded`, `Linked` and
`Hears` carry the snapshots of the scene and the deltas sent after them through a run: a
snapshot restores the store together with the deltas above its number, and these are sent in
one stretch. `Keeps` is what the client's state has of this.
-/

namespace Lumencast.Server

open Foundation Protocol

variable {Text : Type}

/-- The state after some deltas, for a client that discards stale frames. -/
def foldFresh (since : Nat) (state : State) (frames : List Delta) : State :=
  overwrite state (writesOf ((fresh Delta.seq since frames).map deltaBatch))

namespace SceneCell

/-- Every number that is taken from now on is above `base`, and the store goes back to a
state at `base`. -/
structure Grounded (base : Nat) (cell : SceneCell Text) : Prop where
  reached : base ≤ cell.scene.seq
  ahead : ∀ p ∈ cell.history.drop cell.scene.tx.sent.length, base < p.seq
  restores : ∃ state, Restores base state cell

/-- A snapshot that restores the store together with the deltas above its number. -/
structure Carries (base : Nat) (S : Snapshot) (cell : SceneCell Text) : Prop where
  started : base ≤ S.seq
  reached : S.seq ≤ cell.scene.seq
  keeps : Keeps base S.seq S.state cell

section Step

variable {base k : Nat} {S : Snapshot} {cell cell' : SceneCell Text} {a : SceneAction}

theorem seq_le_of_step (h : cell.step a = some cell') : cell.scene.seq ≤ cell'.scene.seq := by
  rcases seq_of_step h with ⟨_, seq⟩ | ⟨_, seq, _⟩ | ⟨_, _, _, seq⟩
  · exact Nat.le_of_eq seq.symm
  · exact seq ▸ Nat.le_succ _
  · exact seq ▸ Nat.le_succ _

/-- New numbers are above the counter. -/
theorem ahead_of_step (published : cell.Published) (inTurn : cell.InTurn a)
    (reached : base ≤ cell.scene.seq) (ahead : ∀ p ∈ cell.history.drop k, base < p.seq)
    (h : cell.step a = some cell') : ∀ p ∈ cell'.history.drop k, base < p.seq := by
  intro p member
  rw [(published.publishes inTurn.1 h).history, List.drop_append] at member
  rcases List.mem_append.mp member with old | new
  · exact ahead p old
  · rcases seq_of_step h with ⟨nothing, _⟩ | ⟨nothing, _⟩ | ⟨q, only, number, _⟩
    · simp [nothing] at new
    · simp [nothing] at new
    · rw [only] at new
      rw [List.mem_singleton.mp (List.mem_of_mem_drop new), number]
      exact Nat.lt_succ_of_le reached

theorem Grounded.step (grounded : cell.Grounded base) (published : cell.Published)
    (inTurn : cell.InTurn a) (h : cell.step a = some cell') : cell'.Grounded base := by
  refine ⟨Nat.le_trans grounded.reached (seq_le_of_step h), fun p member => ?_, ?_⟩
  · refine ahead_of_step published inTurn grounded.reached grounded.ahead h p ?_
    exact (List.drop_subset_drop_left _ (published.grows inTurn h).2) member
  · obtain ⟨state, restores⟩ := grounded.restores
    exact ⟨state, restores.step published grounded.reached inTurn h⟩

/-- A scene that is idle. -/
theorem Grounded.of_idle (published : cell.Published) (idle : cell.calls = []) :
    cell.Grounded cell.scene.seq where
  reached := Nat.le_refl _
  ahead := by
    rw [history_of_idle idle, List.drop_length]
    exact fun p member => nomatch member
  restores := by
    have nothing : cell.history.filter (fun p => cell.scene.seq < p.seq) = [] :=
      List.filter_eq_nil_iff.mpr fun p member => by simpa using published.bounded p member
    refine ⟨cell.scene.store, ?_⟩
    rw [Restores, owed, nothing, idle]
    rfl

theorem Carries.step (carries : cell.Carries base S) (published : cell.Published)
    (inTurn : cell.InTurn a) (h : cell.step a = some cell') : cell'.Carries base S :=
  ⟨carries.started, Nat.le_trans carries.reached (seq_le_of_step h),
    carries.keeps.step published carries.reached inTurn h⟩

/-- The state that is read after the number. -/
theorem Grounded.carries (grounded : cell.Grounded base) (published : cell.Published)
    (started : base ≤ S.seq) (reached : S.seq ≤ cell.scene.seq)
    (state : S.state = cell.scene.store) : cell.Carries base S := by
  obtain ⟨_, restores⟩ := grounded.restores
  refine ⟨started, reached, fun n low _ => ?_⟩
  rw [state]
  exact restores.store published low

/-- A front part of what was sent, without stale frames, is the history up to its highest
number. -/
theorem Played.fresh_front {since start split next : Nat} {frames front : List Delta}
    (played : Played since start split next frames cell) (published : cell.Published)
    (part : front <+: frames) :
    fresh Delta.seq since front = (between DeltaPayload.seq since
      (highest Delta.seq since front) cell.history).map DeltaPayload.frame := by
  obtain ⟨k, kept⟩ :=
    fresh_overlap_take published.increasing played.before played.inside front.length
  have shown := List.prefix_iff_eq_take.mp part
  rw [played.frames, ← List.map_take] at shown
  have stretch : fresh Delta.seq since front =
      ((cell.history.take k).filter fun p => since < p.seq).map DeltaPayload.frame := by
    rw [shown, fresh_map frame_seq, kept]
  have top : highest Delta.seq since front = highest DeltaPayload.seq since
      ((cell.history.take k).filter fun p => since < p.seq) := by
    rw [← highest_fresh, stretch, highest_map frame_seq]
  rw [stretch, top, between_highest_filter published.increasing]

/-- Folding a front part of what was sent. -/
theorem Played.keeps_front {since start split next : Nat} {frames front : List Delta}
    {state : State} (played : Played since start split next frames cell)
    (published : cell.Published) (part : front <+: frames) (keeps : Keeps base since state cell)
    (started : base ≤ since) :
    Keeps base (highest Delta.seq since front) (foldFresh since state front) cell := by
  rw [foldFresh, played.fresh_front published part, List.map_map]
  exact keeps.fold published started _

theorem Played.highest_le {since start split next : Nat} {frames front : List Delta}
    (played : Played since start split next frames cell) (published : cell.Published)
    (part : front <+: frames) (reached : since ≤ cell.scene.seq) :
    highest Delta.seq since front ≤ cell.scene.seq := by
  rcases @highest_eq_or_mem _ Delta.seq since (fresh Delta.seq since front) with
    same | ⟨d, kept, same⟩
  · rw [← highest_fresh, same]
    exact reached
  · rw [played.fresh_front published part] at kept
    obtain ⟨p, inside, rfl⟩ := List.mem_map.mp kept
    rw [← highest_fresh, ← same]
    exact published.bounded p (List.mem_of_mem_filter inside)

/-- Once the scene is idle and the queue is drained, the frames sent bring a state that has
everything up to the resume point to the store, with the stale ones or without. -/
theorem Played.folds {since start split next : Nat} {frames : List Delta} {state : State}
    (played : Played since start split next frames cell) (published : cell.Published)
    (keeps : Keeps base since state cell) (started : base ≤ since)
    (ahead : ∀ p ∈ cell.history.drop start, base < p.seq) (idle : cell.calls = [])
    (all : cell.scene.tx.sent.length ≤ next) :
    overwrite state (writesOf (frames.map deltaBatch)) = cell.scene.store ∧
      foldFresh since state frames = cell.scene.store := by
  have history := history_of_idle idle
  have batches (deltas : List DeltaPayload) :
      (deltas.map DeltaPayload.frame).map deltaBatch = deltas.map DeltaPayload.batch := by
    rw [List.map_map]
    rfl
  have owed_eq (n : Nat) : owed n cell =
      (cell.history.filter fun p => n < p.seq).map DeltaPayload.batch := by
    rw [owed, idle]
    exact List.append_nil _
  constructor
  · -- the records are one stretch above `since`, and the queue goes on from a lower number
    have low : highest DeltaPayload.seq base (cell.history.take start) ≤
        highest DeltaPayload.seq base (cell.history.take split) := by
      rcases @highest_eq_or_mem _ DeltaPayload.seq base (cell.history.take start) with
        same | ⟨p, member, same⟩
      · rw [same]
        exact since_le_highest ..
      · rw [← same]
        exact le_highest ((List.take_sublist_take_left played.before).subset member)
    have looked := between_highest published.increasing
      (fun p member => ahead p (List.drop_subset_drop_left _ played.before member)) since
    have folded := keeps.fold published started
      (highest DeltaPayload.seq base (cell.history.take split)) _ (since_le_highest ..) low
    have whole : cell.history.take next = cell.history :=
      List.take_of_length_le (history ▸ all)
    rw [looked, Restores, owed_eq, filter_highest published.increasing ahead, ← overwrite_append,
      ← writesOf_append, ← List.map_append] at folded
    rw [played.frames, whole, batches]
    exact folded
  · have whole : cell.history.take (max split next) = cell.history :=
      List.take_of_length_le (history ▸ Nat.le_trans all (Nat.le_max_right ..))
    have restores := keeps since started (Nat.le_refl since)
    rw [Restores, owed_eq] at restores
    rw [foldFresh, played.fresh_eq published, whole, batches]
    exact restores

end Step
end SceneCell

/-! ## The links of a scene -/

/-- What a connection knows of the scene `r`, by its link to it. -/
def Linked (base : Nat) (r : SceneRef) (conn : Connection Text) (cell : SceneCell Text) : Prop :=
  match conn.link with
  | .opening q => q = r → ∀ p ∈ cell.history.drop conn.deltas, base < p.seq
  | .reading q seq | .crossingAt q seq => q = r → base ≤ seq ∧ seq ≤ cell.scene.seq
  | .attached q | .landing q => q = r → ∀ x ∈ latestSnapshot conn.outbox, cell.Carries base x.1
  | .detached | .crossing _ | .closed => True

namespace Linked

variable {base : Nat} {r : SceneRef} {conn : Connection Text} {cell cell' : SceneCell Text}

/-- A connection that is linked elsewhere. -/
theorem elsewhere (h : conn.link.scene ≠ some r) : Linked base r conn cell := by
  unfold Linked
  split <;> first | trivial | (intro same; simp_all [Link.scene])

theorem congr {conn' : Connection Text} (linked : Linked base r conn cell)
    (link : conn'.link = conn.link) (outbox : conn'.outbox = conn.outbox)
    (deltas : conn'.deltas = conn.deltas) : Linked base r conn' cell := by
  rw [Linked, link, outbox, deltas]
  exact linked

/-- A step of the scene. -/
theorem scene_step {a : SceneAction} (linked : Linked base r conn cell)
    (grounded : cell.Grounded base) (published : cell.Published) (inTurn : cell.InTurn a)
    (h : cell.step a = some cell') : Linked base r conn cell' := by
  unfold Linked at linked ⊢
  cases link : conn.link with
  | opening q =>
      rw [link] at linked
      intro same
      exact SceneCell.ahead_of_step published inTurn grounded.reached (linked same) h
  | reading q seq | crossingAt q seq =>
      rw [link] at linked
      intro same
      exact ⟨(linked same).1, Nat.le_trans (linked same).2 (SceneCell.seq_le_of_step h)⟩
  | attached q | landing q =>
      rw [link] at linked
      intro same x sent
      exact (linked same x sent).step published inTurn h
  | detached | crossing q | closed => trivial

/-- A frame without a snapshot, sent from the main loop. -/
theorem attached_other {conn' : Connection Text} {f : ServerFrame}
    (linked : Linked base r conn cell) {q : SceneRef} (before : conn.link = .attached q)
    (after : conn'.link = .attached q) (outbox : conn'.outbox = conn.outbox ++ [f])
    (noSnapshot : snapshotOf f = none) : Linked base r conn' cell := by
  unfold Linked at linked ⊢
  rw [before] at linked
  rw [after, outbox, latestSnapshot_concat noSnapshot]
  intro same x sent
  obtain ⟨y, earlier, rfl⟩ := Option.map_eq_some_iff.mp sent
  exact linked same y earlier

/-- A step of the handler, on the scene as it is. -/
theorem move {inner : ServerInner Text} {c : Nat} {o : Outcome Text}
    (linked : Linked base r conn (inner.heap r)) (grounded : (inner.heap r).Grounded base)
    (published : (inner.heap r).Published) (quiet : conn.Quiet)
    (h : Connection.Move inner c conn o) : Linked base r o.conn (inner.heap r) := by
  cases h with
  | still link outbox deltas => exact linked.congr link outbox deltas
  | pong before link f outbox => exact linked.attached_other before link outbox rfl
  | close link | deny before link => exact elsewhere (by simp [link, Link.scene])
  | leave before phase link =>
      rw [Linked, link]
      trivial
  | @refuse q reply stop before phase link clock outbox =>
      cases stop with
      | true => exact elsewhere (by simp [link, Link.scene])
      | false => exact linked.attached_other before link outbox rfl
  | subscribe before link outbox deltas =>
      rw [Linked, link, deltas]
      rintro rfl
      exact grounded.ahead
  | resume before phase link covered outbox =>
      have none_sent : latestSnapshot o.conn.outbox = none := by
        rw [outbox, quiet.empty_of_opening before, List.nil_append, latestSnapshot_replayed]
      rw [Linked, link, none_sent]
      intro _ _ sent
      cases sent
  | readSeq before link | crossSeq before link =>
      rw [Linked, link]
      rintro rfl
      exact ⟨grounded.reached, Nat.le_refl _⟩
  | snapshot before link clock outbox | crossSnapshot before link clock outbox =>
      rw [Linked, before] at linked
      rw [Linked, link, outbox, Connection.snapshotFrame, latestSnapshot_snapshot]
      rintro rfl _ ⟨⟩
      exact grounded.carries published (linked rfl).1 (linked rfl).2 rfl
  | deliver before link received outbox =>
      exact linked.attached_other before link outbox rfl
  | land before phase link outbox =>
      rw [Linked, before] at linked
      rw [Linked, link, outbox]
      exact linked

end Linked

/-- What a connection was sent after its latest snapshot of the scene `r`, by its link to it. -/
def Hears (r : SceneRef) (conn : Connection Text) (cell : SceneCell Text) : Prop :=
  match conn.link with
  | .opening q => q = r → conn.deltas ≤ cell.scene.tx.sent.length
  | .reading q seq => q = r → conn.deltas ≤ cell.scene.tx.sent.length ∧
      ∀ p ∈ cell.history.take conn.deltas, p.seq ≤ seq
  | .attached q => q = r → ∀ S later, latestSnapshot conn.outbox = some (S, later) →
      ∃ start, cell.Played S.seq start start conn.deltas (deltasOf later)
  | .landing q => q = r → ∀ x ∈ latestSnapshot conn.outbox, x.2 = []
  | .detached | .crossing _ | .crossingAt .. | .closed => True

/-- A queue whose deltas so far are in the snapshot. -/
theorem SceneCell.Played.start {cell : SceneCell Text} {since next : Nat}
    (within : next ≤ cell.scene.tx.sent.length)
    (covered : ∀ p ∈ cell.history.take next, p.seq ≤ since) :
    cell.Played since next next next [] where
  before := Nat.le_refl _
  inside := Nat.le_trans within cell.length_sent_le_history
  ordered := Nat.le_refl _
  within := within
  frames := by
    have nothing : ((cell.history.take next).filter fun p => since < p.seq) = [] :=
      List.filter_eq_nil_iff.mpr fun p member => by simpa using covered p member
    rw [nothing, List.nil_append, List.drop_eq_nil_of_le (List.length_take_le ..)]
    rfl

namespace Hears

variable {r : SceneRef} {conn conn' : Connection Text} {cell cell' : SceneCell Text}

/-- A connection that is linked elsewhere. -/
theorem elsewhere (h : conn.link.scene ≠ some r) : Hears r conn cell := by
  unfold Hears
  split <;> first | trivial | (intro same; simp_all [Link.scene])

theorem congr (hears : Hears r conn cell) (link : conn'.link = conn.link)
    (outbox : conn'.outbox = conn.outbox) (deltas : conn'.deltas = conn.deltas) :
    Hears r conn' cell := by
  rw [Hears, link, outbox, deltas]
  exact hears

/-- The scene goes on. -/
theorem grow (hears : Hears r conn cell)
    (history : ∃ more, cell'.history = cell.history ++ more)
    (sent : cell.scene.tx.sent.length ≤ cell'.scene.tx.sent.length) : Hears r conn cell' := by
  obtain ⟨more, history⟩ := history
  unfold Hears at hears ⊢
  cases link : conn.link with
  | opening q =>
      rw [link] at hears
      exact fun same => Nat.le_trans (hears same) sent
  | reading q seq =>
      rw [link] at hears
      intro same
      obtain ⟨within, covered⟩ := hears same
      refine ⟨Nat.le_trans within sent, ?_⟩
      rw [history, List.take_append_of_le_length
        (Nat.le_trans within cell.length_sent_le_history)]
      exact covered
  | attached q =>
      rw [link] at hears
      intro same S later received
      obtain ⟨start, played⟩ := hears same S later received
      exact ⟨start, played.grow history sent⟩
  | landing q =>
      rw [link] at hears
      exact hears
  | detached | crossing q | crossingAt q seq | closed => trivial

/-- A frame without a delta and without a snapshot, sent from the main loop. -/
theorem attached_other {f : ServerFrame} (hears : Hears r conn cell) {q : SceneRef}
    (before : conn.link = .attached q) (after : conn'.link = .attached q)
    (outbox : conn'.outbox = conn.outbox ++ [f]) (deltas : conn'.deltas = conn.deltas)
    (noDelta : deltaOf f = none) (noSnapshot : snapshotOf f = none) : Hears r conn' cell := by
  unfold Hears at hears ⊢
  rw [before] at hears
  rw [after, outbox, deltas, latestSnapshot_concat noSnapshot]
  intro same S later received
  obtain ⟨⟨S', front⟩, earlier, eq⟩ := Option.map_eq_some_iff.mp received
  cases eq
  have kept : deltasOf (front ++ [f]) = deltasOf front := by
    rw [deltasOf_append]
    simp [deltasOf, noDelta]
  rw [kept]
  exact hears same _ _ earlier

/-- A step of the handler, on the scene as it is. -/
theorem move {inner : ServerInner Text} {c : Nat} {o : Outcome Text}
    (hears : Hears r conn (inner.heap r)) (published : (inner.heap r).Published)
    (quiet : conn.Quiet) (lands : conn.LandsInTime r (inner.heap r).scene)
    (h : Connection.Move inner c conn o) : Hears r o.conn (inner.heap r) := by
  cases h with
  | still link outbox deltas => exact hears.congr link outbox deltas
  | pong before link f outbox deltas =>
      exact hears.attached_other before link outbox deltas rfl rfl
  | close link | deny before link => exact elsewhere (by simp [link, Link.scene])
  | @refuse q reply stop before phase link clock outbox deltas =>
      cases stop with
      | true => exact elsewhere (by simp [link, Link.scene])
      | false => exact hears.attached_other before link outbox deltas rfl rfl
  | subscribe before link outbox deltas =>
      rw [Hears, link, deltas]
      rintro rfl
      exact Nat.le_refl _
  | resume before phase link covered outbox =>
      have none_sent : latestSnapshot o.conn.outbox = none := by
        rw [outbox, quiet.empty_of_opening before, List.nil_append, latestSnapshot_replayed]
      rw [Hears, link, none_sent]
      rintro _ S later ⟨⟩
  | readSeq before link outbox deltas =>
      rw [Hears, before] at hears
      rw [Hears, link, deltas]
      rintro rfl
      exact ⟨hears rfl, fun p member => published.bounded p (List.mem_of_mem_take member)⟩
  | snapshot before link clock outbox deltas =>
      rw [Hears, before] at hears
      rw [Hears, link, outbox, deltas, Connection.snapshotFrame, latestSnapshot_snapshot]
      rintro rfl S later ⟨⟩
      obtain ⟨within, covered⟩ := hears rfl
      exact ⟨_, .start within covered⟩
  | deliver before link received outbox deltas =>
      rw [Hears, before] at hears
      rw [Hears, link, outbox, deltas, latestSnapshot_concat rfl]
      rintro rfl S later sent
      obtain ⟨⟨S', front⟩, earlier, eq⟩ := Option.map_eq_some_iff.mp sent
      cases eq
      obtain ⟨start, played⟩ := hears rfl _ front earlier
      rw [deltasOf_append]
      exact ⟨start, played.deliver received⟩
  | leave before phase link | crossSeq before link =>
      rw [Hears, link]
      trivial
  | crossSnapshot before link clock outbox =>
      rw [Hears, link, outbox, Connection.snapshotFrame, latestSnapshot_snapshot]
      rintro _ _ ⟨⟩
      rfl
  | land before phase link outbox deltas =>
      rw [Hears, before] at hears
      rw [Hears, link, outbox, deltas]
      rintro rfl S later received
      have nothing : later = [] := hears rfl _ received
      subst nothing
      refine ⟨_, .start (Nat.le_refl _) fun p member => ?_⟩
      -- the subscription is in time, so that the snapshot has what the queue has not
      rw [SceneCell.history, SceneCell.inSight, List.take_left' rfl] at member
      exact lands phase _ received p member

/-- What came after the latest snapshot is one stretch of the history. -/
theorem played {S : Snapshot} {later : List ServerFrame} (hears : Hears r conn cell)
    (watching : conn.link = .attached r ∨ conn.link = .landing r)
    (received : latestSnapshot conn.outbox = some (S, later)) :
    ∃ start next, cell.Played S.seq start start next (deltasOf later) := by
  rcases watching with link | link <;> rw [Hears, link] at hears
  · obtain ⟨start, played⟩ := hears rfl S later received
    exact ⟨start, _, played⟩
  · have nothing : later = [] := hears rfl _ received
    subst nothing
    exact ⟨0, 0, .start (Nat.zero_le _) (by simp)⟩

end Hears

/-! ## Runs -/

/-- The scene `r` and the links to it, in a run that started with its counter at `base`. -/
structure Tracked (base : Nat) (r : SceneRef) (w : World Text) : Prop where
  wf : w.Wf
  quiet : ∀ d, (w.conns d).Quiet
  published : (w.inner.heap r).Published
  unborn : w.inner.nextRef ≤ r → base = 1
  grounded : r < w.inner.nextRef → (w.inner.heap r).Grounded base
  linked : ∀ d, Linked base r (w.conns d) (w.inner.heap r)

section Runs

variable {P : Platform Text} {base since start : Nat} {r : SceneRef} {c : Nat} {state : State}
  {w w' : World Text} {a : Action Text}

theorem exists_tracked (init : w.Init) (r : SceneRef) : ∃ base, Tracked base r w := by
  have quiet (d : Nat) : (w.conns d).Quiet := by
    simp [Connection.Quiet, Connection.link, init.awaiting d, init.silent d]
  have published := SceneCell.Published.of_sound (init.idle r) (init.sound r)
  have linked (base d : Nat) : Linked base r (w.conns d) (w.inner.heap r) :=
    Linked.elsewhere (by simp [Connection.link, init.awaiting d, Link.scene])
  by_cases exists_ : r < w.inner.nextRef
  · refine ⟨(w.inner.heap r).scene.seq, init.wf, quiet, published, fun unborn => ?_, fun _ => ?_,
      linked _⟩
    · exact absurd exists_ (Nat.not_lt.mpr unborn)
    · exact SceneCell.Grounded.of_idle published (init.idle r)
  · exact ⟨1, init.wf, quiet, published, fun _ => rfl, fun born => absurd born exists_, linked 1⟩

theorem Tracked.step (tracked : Tracked base r w) (inTurn : w.InTurnAt r a)
    (h : w.step P a = some w') : Tracked base r w' := by
  have handled (d : Nat) : (w'.conns d).Quiet ∧
      (r < w.inner.nextRef → Linked base r (w'.conns d) (w.inner.heap r)) := by
    refine World.conn_step (Q := fun conn => conn.Quiet ∧
      (r < w.inner.nextRef → Linked base r conn (w.inner.heap r))) h
      (fun _ => ⟨tracked.quiet d, fun _ => (tracked.linked d).congr rfl rfl rfl⟩)
      ⟨trivial, fun _ => Linked.elsewhere nofun⟩ fun amb o _ stepped => ?_
    have move := Connection.move_of_step stepped
    exact ⟨(tracked.quiet d).move move, fun exists_ => (tracked.linked d).move
      (tracked.grounded exists_) tracked.published (tracked.quiet d) move⟩
  refine ⟨tracked.wf.step h, fun d => (handled d).1,
    World.published_step tracked.published inTurn h,
    fun unborn => tracked.unborn (Nat.le_trans (World.step_refs h).1 unborn), fun born => ?_,
    fun d => ?_⟩
  · by_cases exists_ : r < w.inner.nextRef
    · have grounded := tracked.grounded exists_
      rcases World.inTurn_cases inTurn h with same | ⟨rfl, _⟩ | ⟨sa, stepped, ordered, _⟩
      · rw [same]
        exact grounded
      · exact absurd exists_ (Nat.lt_irrefl _)
      · exact grounded.step tracked.published ordered stepped
    · obtain ⟨reg, new⟩ := World.created_of_step h (Nat.not_lt.mp exists_) born
      obtain ⟨seq, tx, replay⟩ := reg.scene_fresh P
      have published : SceneCell.Published { scene := reg.scene P } :=
        SceneCell.Published.of_sound rfl (Sound.fresh seq tx replay)
      rw [new, tracked.unborn (Nat.not_lt.mp exists_), ← seq]
      exact SceneCell.Grounded.of_idle published rfl
  · by_cases exists_ : r < w.inner.nextRef
    · have linked := (handled d).2 exists_
      rcases World.inTurn_cases inTurn h with same | ⟨rfl, _⟩ | ⟨sa, stepped, ordered, _⟩
      · rw [same]
        exact linked
      · exact absurd exists_ (Nat.lt_irrefl _)
      · exact linked.scene_step (tracked.grounded exists_) tracked.published ordered stepped
    · exact Linked.elsewhere fun here => exists_ (tracked.wf.link_of_step h here)

/-- The state has everything of the scene up to the number `since`. -/
structure Held (base since : Nat) (state : State) (r : SceneRef) (w : World Text) : Prop where
  exists_ : r < w.inner.nextRef
  published : (w.inner.heap r).Published
  reached : since ≤ (w.inner.heap r).scene.seq
  keeps : SceneCell.Keeps base since state (w.inner.heap r)

theorem Held.step (held : Held base since state r w) (inTurn : w.InTurnAt r a)
    (h : w.step P a = some w') : Held base since state r w' := by
  have exists_ := Nat.lt_of_lt_of_le held.exists_ (World.step_refs h).1
  have published := World.published_step held.published inTurn h
  rcases World.inTurn_cases inTurn h with same | ⟨rfl, _⟩ | ⟨sa, stepped, ordered, _⟩
  · exact ⟨exists_, published, same ▸ held.reached, same ▸ held.keeps⟩
  · exact absurd held.exists_ (Nat.lt_irrefl _)
  · exact ⟨exists_, published, Nat.le_trans held.reached (SceneCell.seq_le_of_step stepped),
      held.keeps.step held.published held.reached ordered stepped⟩

/-- The state of a snapshot that was sent on a connection to the scene. -/
theorem Tracked.held {d : Nat} {S : Snapshot} {later : List ServerFrame}
    (tracked : Tracked base r w)
    (watching : (w.conns d).link = .attached r ∨ (w.conns d).link = .landing r)
    (received : latestSnapshot (w.conns d).outbox = some (S, later)) :
    base ≤ S.seq ∧ Held base S.seq S.state r w := by
  have exists_ : r < w.inner.nextRef := by
    have linked : (w.conns d).link.scene = some r := by
      rcases watching with link | link <;> rw [link] <;> rfl
    rcases Connection.link_scene linked with current | target
    · exact tracked.wf.current current
    · exact tracked.wf.target target
  have carries : (w.inner.heap r).Carries base S := by
    have linked := tracked.linked d
    rw [Linked] at linked
    rcases watching with link | link <;> rw [link] at linked <;> exact linked rfl _ received
  exact ⟨carries.started, exists_, tracked.published, carries.reached, carries.keeps⟩

/-- Folding a front part of what was sent, without the stale frames. -/
theorem Held.folded {split next : Nat} {frames front : List Delta}
    (held : Held base since state r w) (started : base ≤ since)
    (played : (w.inner.heap r).Played since start split next frames) (part : front <+: frames) :
    base ≤ highest Delta.seq since front ∧
      Held base (highest Delta.seq since front) (foldFresh since state front) r w :=
  ⟨Nat.le_trans started (since_le_highest ..), held.exists_, held.published,
    played.highest_le held.published part held.reached,
    played.keeps_front held.published part held.keeps started⟩

/-- A connection that was resumed at `since` over the state, and may have left since. -/
structure Answered (base since start : Nat) (state : State) (r : SceneRef) (c : Nat)
    (w : World Text) : Prop where
  held : Held base since state r w
  started : base ≤ since
  ahead : ∀ p ∈ (w.inner.heap r).history.drop start, base < p.seq
  resumed : Resumed since start r c w ∨ (w.conns c).Gone

theorem Answered.step (answered : Answered base since start state r c w)
    (inTurn : w.InTurnAt r a) (h : w.step P a = some w') :
    Answered base since start state r c w' := by
  have held := answered.held
  refine ⟨held.step inTurn h, answered.started, ?_, ?_⟩
  · rcases World.inTurn_cases inTurn h with same | ⟨rfl, _⟩ | ⟨sa, stepped, ordered, _⟩
    · rw [same]
      exact answered.ahead
    · exact absurd held.exists_ (Nat.lt_irrefl _)
    · exact SceneCell.ahead_of_step held.published ordered
        (Nat.le_trans answered.started held.reached) answered.ahead stepped
  · rcases answered.resumed with resumed | gone
    · exact (resumed.step inTurn h).imp_right And.right
    · exact .inr (gone_step gone h)

/-- The step that answers with the ring. -/
theorem Held.answer {amb : Ambient} (held : Held base since state r w) (started : base ≤ since)
    (tracked : Tracked base r w) (opening : Opening r c w)
    (replays : (w.conns c).phase = .replaying since) (current : (w.conns c).current = some r)
    (covered : ((w.inner.heap r).scene.replaySince since).covered = true)
    (h : w.step P (.handler c amb) = some w') :
    Answered base since (w.conns c).deltas state r c w' := by
  have resumed := opening.resume replays current covered h
  have same : w'.inner = w.inner := by
    obtain ⟨o, stepped, _, effect⟩ := World.step_handler h
    simp only [Connection.step, replays, current, Option.map_some, covered, if_true,
      Option.some.injEq] at stepped
    subst stepped
    exact (Option.some.inj effect).symm
  have link : (w.conns c).link = .opening r := by simp [Connection.link, replays, current]
  have ahead := tracked.linked c
  rw [Linked, link] at ahead
  refine ⟨⟨resumed.exists_, resumed.published, ?_, ?_⟩, started, ?_, .inl resumed⟩ <;> rw [same]
  · exact held.reached
  · exact held.keeps
  · exact ahead rfl

/-- What the connection was sent, once the scene is idle and the queue is drained. -/
theorem Answered.folds {q : SceneRef} (answered : Answered base since start state r c w)
    (attached : (w.conns c).link = .attached q)
    (unanswered : latestSnapshot (w.conns c).outbox = none) (idle : (w.inner.heap q).calls = [])
    (drained : (w.inner.heap q).scene.tx.recv (w.conns c).deltas = .empty) :
    let frames := deltasOf (w.conns c).outbox
    overwrite state (writesOf (frames.map deltaBatch)) = (w.inner.heap q).scene.store ∧
      foldFresh since state frames = (w.inner.heap q).scene.store := by
  rcases answered.resumed with resumed | gone
  · have here : q = r := by
      rcases resumed.plays.link with link | link
      · exact Link.attached.inj (attached.symm.trans link)
      · cases attached.symm.trans link
    subst here
    obtain ⟨split, next, played, queue⟩ := resumed.plays.played
    obtain rfl := queue attached
    exact played.folds resumed.published answered.held.keeps answered.started answered.ahead idle
      (Broadcast.recv_eq_empty.mp drained).2
  · rw [Connection.Gone, attached] at gone
    exact absurd unanswered gone

/-- The scene `r`, the connections that open on it and what `d` is sent of it. -/
structure Attends (base : Nat) (r : SceneRef) (d : Nat) (w : World Text) : Prop where
  tracked : Tracked base r w
  opening : ∀ c, Opening r c w
  hears : Hears r (w.conns d) (w.inner.heap r)

theorem exists_attends (init : w.Init) (r : SceneRef) (d : Nat) : ∃ base, Attends base r d w := by
  obtain ⟨base, tracked⟩ := exists_tracked init r
  exact ⟨base, tracked, fun _ => Opening.init init,
    Hears.elsewhere (by simp [Connection.link, init.awaiting d, Link.scene])⟩

theorem Attends.step {d : Nat} (attends : Attends base r d w) (inTurn : w.InTurnAt r a)
    (lands : w.LandsInTime d r a) (h : w.step P a = some w') : Attends base r d w' := by
  have tracked := attends.tracked
  have heard : Hears r (w'.conns d) (w.inner.heap r) := by
    refine World.conn_step (Q := fun conn => Hears r conn (w.inner.heap r)) h
      (fun _ => attends.hears.congr rfl rfl rfl) (Hears.elsewhere nofun)
      fun amb o taken stepped => ?_
    subst taken
    exact attends.hears.move tracked.published (tracked.quiet d) (lands rfl)
      (Connection.move_of_step stepped)
  refine ⟨tracked.step inTurn h, fun c => (attends.opening c).step inTurn h, ?_⟩
  by_cases exists_ : r < w.inner.nextRef
  · obtain ⟨history, sent⟩ := World.grows exists_ tracked.published inTurn h
    exact heard.grow history sent
  · exact Hears.elsewhere fun here => exists_ (tracked.wf.link_of_step h here)

end Runs

/-! ## The client -/

/-- What a client of the scene `r` has retained when it has come to number `n`, by the frames
that it was sent: a snapshot that connection `d` sent, with the deltas after it, and the deltas
of every connection on which the handler answered it at its number. -/
inductive Retains (P : Platform Text) (start : World Text) (r : SceneRef) (d : Nat) :
    List (Action Text) → World Text → Nat → State → Prop
  /-- The snapshot, and any front part of the deltas that followed it. -/
  | snapshot {schedule : List (Action Text)} {w : World Text} {S : Snapshot}
      {later : List ServerFrame} {front : List Delta}
      (reach : run (World.step P) start schedule = some w)
      (watching : (w.conns d).link = .attached r ∨ (w.conns d).link = .landing r)
      (received : latestSnapshot (w.conns d).outbox = some (S, later))
      (part : front <+: deltasOf later) :
      Retains P start r d schedule w (highest Delta.seq S.seq front)
        (foldFresh S.seq S.state front)
  /-- The client goes away. -/
  | away {schedule more : List (Action Text)} {w w' : World Text} {n : Nat} {state : State}
      (retains : Retains P start r d schedule w n state)
      (goOn : run (World.step P) w more = some w') :
      Retains P start r d (schedule ++ more) w' n state
  /-- The client comes back on connection `c`, and is sent no snapshot. -/
  | resume {schedule more : List (Action Text)} {w w' : World Text} {n c : Nat} {state : State}
      {amb : Ambient} {front : List Delta} (retains : Retains P start r d schedule w n state)
      (replays : (w.conns c).phase = .replaying n) (current : (w.conns c).current = some r)
      (covered : ((w.inner.heap r).scene.replaySince n).covered = true)
      (goOn : run (World.step P) w (.handler c amb :: more) = some w')
      (attached : (w'.conns c).link = .attached r)
      (unanswered : latestSnapshot (w'.conns c).outbox = none)
      (part : front <+: deltasOf (w'.conns c).outbox) :
      Retains P start r d (schedule ++ .handler c amb :: more) w'
        (highest Delta.seq n front) (foldFresh n state front)

namespace Retains

variable {P : Platform Text} {start w : World Text} {r : SceneRef} {d n : Nat}
  {schedule : List (Action Text)} {state : State}

theorem reach (retains : Retains P start r d schedule w n state) :
    run (World.step P) start schedule = some w := by
  induction retains with
  | snapshot reach => exact reach
  | away _ goOn ih => exact run_append_eq_some.mpr ⟨_, ih, goOn⟩
  | resume _ _ _ _ goOn _ _ _ ih => exact run_append_eq_some.mpr ⟨_, ih, goOn⟩

/-- With no emission overtaken and the swap of connection `d` in time, the client's state has
everything of the scene up to the client's number. -/
theorem held (retains : Retains P start r d schedule w n state) (init : start.Init)
    (steps : Along (World.step P) (fun w a => w.InTurnAt r a ∧ w.LandsInTime d r a) start
      schedule) :
    ∃ base, base ≤ n ∧ Attends base r d w ∧ Held base n state r w := by
  induction retains with
  | @snapshot schedule w S later front reach watching received part =>
      obtain ⟨base, attends⟩ := exists_attends init r d
      replace attends := steps.invariant (I := Attends base r d)
        (fun _ _ _ attends both h => attends.step both.1 both.2 h) attends reach
      obtain ⟨started, held⟩ := attends.tracked.held watching received
      obtain ⟨_, _, played⟩ := attends.hears.played watching received
      obtain ⟨started, held⟩ := held.folded started played part
      exact ⟨base, started, attends, held⟩
  | away retains goOn ih =>
      obtain ⟨before, after⟩ := steps.append retains.reach
      obtain ⟨base, started, attends, held⟩ := ih before
      obtain ⟨attends, held⟩ := after.invariant
        (I := fun w => Attends base r d w ∧ Held base _ _ r w)
        (fun _ _ _ both inTurn h =>
          ⟨both.1.step inTurn.1 inTurn.2 h, both.2.step inTurn.1 h⟩) ⟨attends, held⟩ goOn
      exact ⟨base, started, attends, held⟩
  | @resume schedule more w w' n c state amb front retains replays current covered goOn attached
      unanswered part ih =>
      obtain ⟨before, after⟩ := steps.append retains.reach
      obtain ⟨base, started, attends, held⟩ := ih before
      obtain ⟨resumedAt, first, last⟩ := run_cons_eq_some.mp goOn
      have answered := held.answer started attends.tracked (attends.opening c) replays current
        covered first
      obtain ⟨attends, answered⟩ := (after.2 _ first).invariant
        (I := fun u => Attends base r d u ∧ Answered base n (w.conns c).deltas state r c u)
        (fun _ _ _ both inTurn h =>
          ⟨both.1.step inTurn.1 inTurn.2 h, both.2.step inTurn.1 h⟩)
        ⟨attends.step after.1.1 after.1.2 first, answered⟩ last
      have resumed := answered.resumed.resolve_right fun gone => by
        rw [Connection.Gone, attached] at gone
        exact gone unanswered
      obtain ⟨_, _, played, _⟩ := resumed.plays.played
      obtain ⟨started, held⟩ := answered.held.folded started played part
      exact ⟨base, started, attends, held⟩

end Retains

/-- In every run in which no emission of the scene `r` is overtaken, in which a client has
retained its state of `r` at number `n`, and in which the handler then answers a subscription
at `n` from the ring of `r`: once the scene is idle and the queue is drained, the frames sent
bring the client's state to the store of the scene that the connection is attached to. -/
theorem resume_restores_store {P : Platform Text} {start asked stop : World Text}
    {r q : SceneRef} {c d n : Nat} {before after : List (Action Text)} {amb : Ambient}
    {state : State} (init : start.Init)
    (retains : Retains P start r d before asked n state)
    (inTurn : Along (World.step P) (World.InTurnAt r) start (before ++ .handler c amb :: after))
    (lands : Along (World.step P) (World.LandsInTime d r) start before)
    (replays : (asked.conns c).phase = .replaying n) (current : (asked.conns c).current = some r)
    (covered : ((asked.inner.heap r).scene.replaySince n).covered = true)
    (finish : run (World.step P) asked (.handler c amb :: after) = some stop)
    (attached : (stop.conns c).link = .attached q)
    (unanswered : latestSnapshot (stop.conns c).outbox = none)
    (idle : (stop.inner.heap q).calls = [])
    (drained : (stop.inner.heap q).scene.tx.recv (stop.conns c).deltas = .empty) :
    let frames := deltasOf (stop.conns c).outbox
    overwrite state (writesOf (frames.map deltaBatch)) = (stop.inner.heap q).scene.store ∧
      foldFresh n state frames = (stop.inner.heap q).scene.store := by
  obtain ⟨toAsked, fromAsked⟩ := inTurn.append retains.reach
  obtain ⟨resumedAt, first, last⟩ := run_cons_eq_some.mp finish
  -- the client comes back with what it has retained
  obtain ⟨base, started, attends, held⟩ := retains.held init (toAsked.and lands)
  -- the server answers and goes on
  have answered : Answered base n (asked.conns c).deltas state r c stop :=
    (fromAsked.2 _ first).invariant (fun _ _ _ answered inTurn h => answered.step inTurn h)
      (held.answer started attends.tracked (attends.opening c) replays current covered first) last
  exact answered.folds attached unanswered idle drained

/-- Connection 0 is attached to scene 0, and is sent one delta, of number 2. -/
private def foldTwo : List (Action Value) :=
  connect 0 ++ emission 0 true ++ List.replicate 3 (operatorStep 0)

/-- Connection 0 ends, `between` happens, and connection 1 subscribes at number 2 without
naming a scene. -/
private def comeBack (between : List (Action Value)) : List (Action Value) :=
  .hangup 0 :: between ++ .receive 1 (.text (.object [("since_sequence", .number (.posInt 2)),
    ("token", .string "t"), ("type", .string "subscribe"), ("v", .number (.posInt 1))])) ::
    List.replicate 7 (operatorStep 1)

/-- The client of connection 0 has folded the delta. -/
private theorem exists_retains_two : ∃ shown seen,
    Retains valuePlatform twoScenes 0 0 foldTwo shown 2
      (overwrite seen [("lamp", .bool true)]) := by
  have ends : (run (World.step valuePlatform) twoScenes foldTwo).any (fun shown =>
      (shown.conns 0).link = .attached 0 ∧ (latestSnapshot (shown.conns 0).outbox).any (fun x =>
        x.1.seq = 1 ∧ (deltasOf x.2).map (fun d => (d.seq, deltaBatch d)) =
          [(2, [("lamp", .bool true)])])) = true := by
    decide
  obtain ⟨shown, reach, link, sent⟩ := exists_run_of_any ends
  obtain ⟨⟨S, later⟩, received, seen⟩ := (Option.any_eq_true ..).mp sent
  obtain ⟨first, deltas⟩ := of_decide_eq_true seen
  obtain ⟨d, only, second⟩ := List.map_eq_singleton_iff.mp deltas
  obtain ⟨number, batch⟩ := Prod.mk.inj second
  have retains := Retains.snapshot reach (.inl link) received (List.prefix_refl _)
  rw [only, first, highest_cons, number, foldFresh, fresh, number, if_pos (by decide),
    List.map_cons, batch] at retains
  exact ⟨shown, S.state, retains⟩

/-- The client has come back on connection 1, and the handler answers it. -/
private theorem exists_returns (between : List (Action Value)) {A B : World Value → Prop}
    [DecidablePred A] [DecidablePred B]
    (replays : (run (World.step valuePlatform) twoScenes (foldTwo ++ comeBack between)).any
      (fun asked => A asked) = true)
    (ends : (run (World.step valuePlatform) twoScenes
      ((foldTwo ++ comeBack between) ++ [operatorStep 1])).any (fun stop => B stop) = true) :
    ∃ asked stop seen,
      Retains valuePlatform twoScenes 0 0 (foldTwo ++ comeBack between) asked 2
        (overwrite seen [("lamp", .bool true)]) ∧
      A asked ∧ run (World.step valuePlatform) asked [operatorStep 1] = some stop ∧ B stop := by
  obtain ⟨shown, seen, retains⟩ := exists_retains_two
  obtain ⟨asked, reachAsked, asks⟩ := exists_run_of_any replays
  obtain ⟨stop, whole, answered⟩ := exists_run_of_any ends
  obtain ⟨shown', reach', goOn⟩ := run_append_eq_some.mp reachAsked
  obtain rfl : shown = shown' := Option.some.inj (retains.reach.symm.trans reach')
  obtain ⟨asked', reach', finish⟩ := run_append_eq_some.mp whole
  obtain rfl : asked = asked' := Option.some.inj (reachAsked.symm.trans reach')
  exact ⟨asked, stop, seen, retains.away goOn, asks, finish, answered⟩

theorem resume_restores_store_again : ∃ asked stop seen,
    Retains valuePlatform twoScenes 0 0 (foldTwo ++ comeBack (emission 0 false)) asked 2
        (overwrite seen [("lamp", .bool true)]) ∧
      run (World.step valuePlatform) asked [operatorStep 1] = some stop ∧
      (deltasOf (stop.conns 1).outbox).map (·.seq) = [3] ∧
      overwrite (overwrite seen [("lamp", .bool true)])
          (writesOf ((deltasOf (stop.conns 1).outbox).map deltaBatch)) =
        (stop.inner.heap 0).scene.store := by
  have replays : (run (World.step valuePlatform) twoScenes
      (foldTwo ++ comeBack (emission 0 false))).any (fun asked =>
        (asked.conns 1).phase = .replaying 2 ∧ (asked.conns 1).current = some 0 ∧
          ((asked.inner.heap 0).scene.replaySince 2).covered = true) = true := by
    decide
  have ends : (run (World.step valuePlatform) twoScenes
      ((foldTwo ++ comeBack (emission 0 false)) ++ [operatorStep 1])).any (fun stop =>
        (deltasOf (stop.conns 1).outbox).map (·.seq) = [3] ∧
          (stop.conns 1).link = .attached 0 ∧ latestSnapshot (stop.conns 1).outbox = none ∧
          (stop.inner.heap 0).calls = [] ∧
          (stop.inner.heap 0).scene.tx.recv (stop.conns 1).deltas = .empty) = true := by
    decide
  obtain ⟨asked, stop, seen, retains, ⟨phase, current, covered⟩, finish, sent, attached,
    unanswered, idle, drained⟩ := exists_returns _ replays ends
  have inTurn : Along (World.step valuePlatform) (World.InTurnAt 0) twoScenes
      ((foldTwo ++ comeBack (emission 0 false)) ++ [operatorStep 1]) := by
    decide
  have lands : Along (World.step valuePlatform) (World.LandsInTime 0 0) twoScenes
      (foldTwo ++ comeBack (emission 0 false)) := by
    decide
  have restores := resume_restores_store twoScenes_init retains inTurn lands phase current covered
    finish attached unanswered idle drained
  exact ⟨asked, stop, seen, retains, finish, sent, restores.1⟩

/-- A client that folded scene 0 up to number 2 subscribes at 2 when scene 1 is active, and
scene 1 has come to number 2 as well: it is sent nothing, and its lamp is not the one of
the scene it is attached to. -/
theorem resume_mixes_scenes : ∃ asked stop seen,
    Retains valuePlatform twoScenes 0 0
        (foldTwo ++ comeBack (emission 1 false ++ activation "stage")) asked 2
        (overwrite seen [("lamp", .bool true)]) ∧
      (asked.conns 1).phase = .replaying 2 ∧ (asked.conns 1).current = some 1 ∧
      ((asked.inner.heap 1).scene.replaySince 2).covered = true ∧
      run (World.step valuePlatform) asked [operatorStep 1] = some stop ∧
      (stop.conns 1).link = .attached 1 ∧ latestSnapshot (stop.conns 1).outbox = none ∧
      (stop.inner.heap 1).calls = [] ∧
      (stop.inner.heap 1).scene.tx.recv (stop.conns 1).deltas = .empty ∧
      overwrite (overwrite seen [("lamp", .bool true)])
          (writesOf ((deltasOf (stop.conns 1).outbox).map deltaBatch)) ≠
        (stop.inner.heap 1).scene.store := by
  have replays : (run (World.step valuePlatform) twoScenes
      (foldTwo ++ comeBack (emission 1 false ++ activation "stage"))).any (fun asked =>
        (asked.conns 1).phase = .replaying 2 ∧ (asked.conns 1).current = some 1 ∧
          ((asked.inner.heap 1).scene.replaySince 2).covered = true) = true := by
    decide
  have ends : (run (World.step valuePlatform) twoScenes
      ((foldTwo ++ comeBack (emission 1 false ++ activation "stage")) ++
        [operatorStep 1])).any (fun stop =>
        (deltasOf (stop.conns 1).outbox).map deltaBatch = [] ∧
          (stop.inner.heap 1).scene.store["lamp"]? = some (.bool false) ∧
          (stop.conns 1).link = .attached 1 ∧ latestSnapshot (stop.conns 1).outbox = none ∧
          (stop.inner.heap 1).calls = [] ∧
          (stop.inner.heap 1).scene.tx.recv (stop.conns 1).deltas = .empty) = true := by
    decide
  obtain ⟨asked, stop, seen, retains, ⟨phase, current, covered⟩, finish, sent, dark, attached,
    unanswered, idle, drained⟩ := exists_returns _ replays ends
  refine ⟨asked, stop, seen, retains, phase, current, covered, finish, attached, unanswered, idle,
    drained, fun same => ?_⟩
  have lit := congrArg (fun store : State => store["lamp"]?) same
  simp [sent, dark] at lit

end Lumencast.Server
