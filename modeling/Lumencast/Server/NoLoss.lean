import Lumencast.Server.Delivery

/-!
# No update is lost

`Follows` is the invariant of one connection and one scene with one emitter at a
time, through the handshake, the main loop and the swap branch. It is preserved
by every locked step of the emitter and by every step of the handler, with one
exception: after a swap the handler subscribes to the deltas last, and a delta
broadcast between its reading of the counter and its subscription is in neither
the snapshot's account nor the queue.
-/

namespace Lumencast.Server

open Foundation Protocol

variable {Text : Type}

/-- Nothing is sent before the snapshot or the replay. -/
def Connection.Quiet (conn : Connection Text) : Prop :=
  match conn.link with
  | .detached | .opening _ | .reading .. => conn.outbox = []
  | _ => True

namespace Connection.Quiet

variable {conn : Connection Text} {r : SceneRef} {seq : Nat}

theorem empty_of_detached (quiet : conn.Quiet) (link : conn.link = .detached) :
    conn.outbox = [] := by
  rwa [Connection.Quiet, link] at quiet

theorem empty_of_opening (quiet : conn.Quiet) (link : conn.link = .opening r) :
    conn.outbox = [] := by
  rwa [Connection.Quiet, link] at quiet

theorem empty_of_reading (quiet : conn.Quiet) (link : conn.link = .reading r seq) :
    conn.outbox = [] := by
  rwa [Connection.Quiet, link] at quiet

end Connection.Quiet

/-- What a connection knows of the scene `r`, by its link to it. -/
def Follows (steady : Prop) (r : SceneRef) (conn : Connection Text) (s : Scene Text)
    (es : List Emission) : Prop :=
  match conn.link with
  | .opening q => q = r →
      conn.deltas ≤ s.tx.sent.length ∧ RebuildsFrom conn.deltas s.store s es
  | .reading q seq => q = r →
      conn.deltas ≤ s.tx.sent.length ∧ RebuildsFrom conn.deltas s.store s es ∧
        (∀ p ∈ s.tx.sent.take conn.deltas, p.seq ≤ seq) ∧
        Reached steady seq s es ∧ FoldsTo seq s.store s es
  | .attached q => q = r → ∀ S later, latestSnapshot conn.outbox = some (S, later) →
      ∃ start, Synced steady S later start conn.deltas s es
  | .crossingAt q seq => q = r → Reached steady seq s es ∧ FoldsTo seq s.store s es
  | .landing q => q = r → ∃ S, latestSnapshot conn.outbox = some (S, []) ∧
      Reached steady S.seq s es ∧ FoldsTo S.seq S.state s es
  | .detached | .crossing _ | .closed => True

/-- When the connection subscribes after a swap, nothing above the number of its
snapshot has been broadcast. -/
def Connection.LandsInTime (r : SceneRef) (conn : Connection Text) (s : Scene Text) : Prop :=
  conn.phase = .resubscribing r →
    ∀ x ∈ latestSnapshot conn.outbox, ∀ p ∈ s.tx.sent, p.seq ≤ x.1.seq

instance (r : SceneRef) (conn : Connection Text) (s : Scene Text) :
    Decidable (conn.LandsInTime r s) :=
  inferInstanceAs (Decidable (conn.phase = .resubscribing r →
    ∀ x ∈ latestSnapshot conn.outbox, ∀ p ∈ s.tx.sent, p.seq ≤ x.1.seq))

namespace Follows

variable {steady : Prop} {r : SceneRef} {conn : Connection Text} {s s' : Scene Text}
  {es es' : List Emission}

/-- A connection that is linked elsewhere. -/
theorem elsewhere (h : conn.link.scene ≠ some r) : Follows steady r conn s es := by
  unfold Follows
  split <;> first | trivial | (intro same; simp_all [Link.scene])

theorem congr {conn' : Connection Text} (follows : Follows steady r conn s es)
    (link : conn'.link = conn.link) (outbox : conn'.outbox = conn.outbox)
    (deltas : conn'.deltas = conn.deltas) : Follows steady r conn' s es := by
  unfold Follows at follows ⊢
  rw [link, outbox, deltas]
  exact follows

/-- A step of the emitter. -/
theorem scene_step (follows : Follows steady r conn s es) (h : EmissionStep s es s' es') :
    Follows steady r conn s' es' := by
  obtain ⟨extra, grown⟩ : ∃ extra, s'.tx.sent = s.tx.sent ++ extra := by
    rcases h.sent_eq.2 with same | ⟨p, more⟩
    · exact ⟨[], by rw [same, List.append_nil]⟩
    · exact ⟨[p], more⟩
  have wider {n : Nat} (le : n ≤ s.tx.sent.length) : n ≤ s'.tx.sent.length := by
    rw [grown, List.length_append]
    exact Nat.le_add_right_of_le le
  unfold Follows at follows ⊢
  cases link : conn.link with
  | detached | crossing q | closed => trivial
  | opening q =>
      rw [link] at follows
      intro same
      obtain ⟨within, rebuilds⟩ := follows same
      exact ⟨wider within, rebuilds.step_store within h⟩
  | reading q seq =>
      rw [link] at follows
      intro same
      obtain ⟨within, rebuilds, earlier, reached, folds⟩ := follows same
      refine ⟨wider within, rebuilds.step_store within h, ?_, reached.step h,
        folds.step_store reached.le h⟩
      rw [grown, List.take_append_of_le_length within]
      exact earlier
  | attached q =>
      rw [link] at follows
      intro same S later sent
      obtain ⟨start, synced⟩ := follows same S later sent
      exact ⟨start, synced.step h⟩
  | crossingAt q seq =>
      rw [link] at follows
      intro same
      obtain ⟨reached, folds⟩ := follows same
      exact ⟨reached.step h, folds.step_store reached.le h⟩
  | landing q =>
      rw [link] at follows
      intro same
      obtain ⟨S, sent, reached, folds⟩ := follows same
      exact ⟨S, sent, reached.step h, folds.step reached.le h⟩

/-- Another connection leaves the scene. -/
theorem scene_change (follows : Follows steady r conn s es) (unsteady : ¬steady) :
    Follows steady r conn s.advanceSeq es := by
  unfold Follows at follows ⊢
  cases link : conn.link with
  | detached | crossing q | closed => trivial
  | opening q =>
      rw [link] at follows
      exact follows
  | reading q seq =>
      rw [link] at follows
      intro same
      obtain ⟨within, rebuilds, earlier, reached, folds⟩ := follows same
      exact ⟨within, rebuilds, earlier, reached.change unsteady, folds⟩
  | attached q =>
      rw [link] at follows
      intro same S later sent
      obtain ⟨start, synced⟩ := follows same S later sent
      exact ⟨start, synced.change unsteady⟩
  | crossingAt q seq =>
      rw [link] at follows
      intro same
      exact ⟨(follows same).1.change unsteady, (follows same).2⟩
  | landing q =>
      rw [link] at follows
      intro same
      obtain ⟨S, sent, reached, folds⟩ := follows same
      exact ⟨S, sent, reached.change unsteady, folds⟩

/-- A frame without a delta, sent from the main loop. -/
theorem attached_other {conn' : Connection Text} {f : ServerFrame}
    (follows : Follows steady r conn s es) {q : SceneRef} (before : conn.link = .attached q)
    (after : conn'.link = .attached q) (outbox : conn'.outbox = conn.outbox ++ [f])
    (deltas : conn'.deltas = conn.deltas) (noDelta : deltaOf f = none)
    (noSnapshot : snapshotOf f = none) : Follows steady r conn' s es := by
  unfold Follows at follows ⊢
  rw [before] at follows
  rw [after, outbox, deltas]
  intro same S later sent
  rw [latestSnapshot_concat noSnapshot, Option.map_eq_some_iff] at sent
  obtain ⟨⟨S', front⟩, earlier, eq⟩ := sent
  cases eq
  obtain ⟨start, synced⟩ := follows same _ front earlier
  exact ⟨start, synced.other noDelta⟩

/-- Subscribing right after a swap, when nothing was broadcast in between. -/
theorem synced_of_landing {S : Snapshot} (sound : Sound s es)
    (reached : Reached steady S.seq s es) (folds : FoldsTo S.seq S.state s es)
    (inTime : ∀ p ∈ s.tx.sent, p.seq ≤ S.seq) :
    Synced steady S [] s.tx.sent.length s.tx.sent.length s es := by
  refine ⟨reached, folds, ?_, Nat.le_refl _, Nat.le_refl _, fun p hp =>
    inTime p (List.mem_of_mem_take hp), by simp⟩
  have none_pending : s.tx.sent.filter (fun p => S.seq < p.seq) = [] :=
    List.filter_eq_nil_iff.mpr fun p hp => by simpa using inTime p hp
  rw [FoldsTo, pending, none_pending, List.map_nil, List.nil_append] at folds
  rw [RebuildsFrom, written, List.drop_length, List.map_nil, List.nil_append]
  have visible := sound.visible
  cases es with
  | nil => exact folds
  | cons e rest =>
      obtain rfl : rest = [] := by simpa using sound.single
      -- an emission numbered by now is in the snapshot and is sent once more
      cases counted : e.isPending S.seq with
      | true =>
          have done : e.written = true := by
            obtain ⟨patches, cause, stage⟩ := e
            cases stage <;> simp_all [Emission.isPending, Emission.written]
          simpa [counted, done] using folds
      | false =>
          simp only [List.filter_cons, counted, Bool.false_eq_true, if_false, List.filter_nil,
            List.map_nil, writesOf_nil, overwrite_nil] at folds
          rw [folds]
          exact visible

/-- A step of the handler, on the scene as it is. -/
theorem move {inner : ServerInner Text} {c : Nat} {o : Outcome Text}
    (follows : Follows steady r conn (inner.heap r).scene es)
    (sound : Sound (inner.heap r).scene es) (quiet : conn.Quiet)
    (lands : conn.LandsInTime r (inner.heap r).scene) (h : Connection.Move inner c conn o) :
    Follows steady r o.conn (inner.heap r).scene es := by
  cases h with
  | still link outbox deltas => exact follows.congr link outbox deltas
  | pong before link f outbox deltas =>
      exact follows.attached_other before link outbox deltas rfl rfl
  | close link => exact elsewhere (by simp [link, Link.scene])
  | deny before link => exact elsewhere (by simp [link, Link.scene])
  | @refuse q reply stop before phase link clock outbox deltas =>
      cases stop with
      | true => exact elsewhere (by simp [link, Link.scene])
      | false => exact follows.attached_other before link outbox deltas rfl rfl
  | subscribe before link outbox deltas =>
      unfold Follows
      rw [link, deltas]
      rintro rfl
      exact ⟨Nat.le_refl _, sound.rebuildsFrom_store⟩
  | resume before phase link covered outbox =>
      have none_sent : latestSnapshot o.conn.outbox = none := by
        rw [outbox, quiet.empty_of_opening before, List.nil_append, latestSnapshot_replayed]
      unfold Follows
      rw [link, none_sent]
      rintro _ S later ⟨⟩
  | readSeq before link outbox deltas =>
      unfold Follows at follows ⊢
      rw [before] at follows
      rw [link, deltas]
      rintro rfl
      obtain ⟨within, rebuilds⟩ := follows rfl
      exact ⟨within, rebuilds, fun p hp => sound.sent_le (List.mem_of_mem_take hp),
        Reached.read sound, sound.foldsTo_store⟩
  | snapshot before link clock outbox deltas =>
      unfold Follows at follows ⊢
      rw [before] at follows
      rw [link, deltas, outbox]
      rintro rfl S later sent
      obtain ⟨within, rebuilds, earlier, reached, folds⟩ := follows rfl
      rw [Connection.snapshotFrame, latestSnapshot_snapshot] at sent
      cases sent
      refine ⟨_, reached, folds, rebuilds, Nat.le_refl _, within, earlier, ?_⟩
      rw [List.drop_eq_nil_of_le (List.length_take_le _ _)]
      rfl
  | deliver before link received outbox deltas =>
      unfold Follows at follows ⊢
      rw [before] at follows
      rw [link, deltas, outbox]
      rintro rfl S later sent
      rw [latestSnapshot_concat rfl, Option.map_eq_some_iff] at sent
      obtain ⟨⟨S', front⟩, earlier, eq⟩ := sent
      cases eq
      obtain ⟨start, synced⟩ := follows rfl _ front earlier
      exact ⟨start, synced.deliver received⟩
  | leave before phase link =>
      unfold Follows
      rw [link]
      trivial
  | crossSeq before link =>
      unfold Follows
      rw [link]
      rintro rfl
      exact ⟨Reached.read sound, sound.foldsTo_store⟩
  | crossSnapshot before link clock outbox =>
      unfold Follows at follows ⊢
      rw [before] at follows
      rw [link, outbox]
      rintro rfl
      obtain ⟨reached, folds⟩ := follows rfl
      exact ⟨_, latestSnapshot_snapshot .., reached, folds⟩
  | land before phase link outbox deltas =>
      unfold Follows at follows ⊢
      rw [before] at follows
      rw [link, outbox, deltas]
      rintro rfl S later sent
      obtain ⟨S', sent', reached, folds⟩ := follows rfl
      rw [sent'] at sent
      cases sent
      exact ⟨_, synced_of_landing sound reached folds (lands phase _ sent')⟩

end Follows

/-- Nothing is sent before the snapshot or the replay. -/
theorem Connection.Quiet.move {inner : ServerInner Text} {c : Nat} {conn : Connection Text}
    {o : Outcome Text} (quiet : conn.Quiet) (h : Connection.Move inner c conn o) :
    o.conn.Quiet := by
  unfold Connection.Quiet at quiet ⊢
  cases h with
  | still link outbox => rw [link, outbox]; exact quiet
  | subscribe before link outbox => rw [before] at quiet; rw [link, outbox]; exact quiet
  | readSeq before link outbox => rw [before] at quiet; rw [link, outbox]; exact quiet
  | @refuse q reply stop before phase link => cases stop <;> simp [link]
  | _ => simp_all

/-- The connection `c` subscribes to the scene `r` in time. -/
def World.LandsInTime (c : Nat) (r : SceneRef) (w : World Text) : Action Text → Prop :=
  w.AtHandler c fun inner conn => conn.LandsInTime r (inner.heap r).scene

instance (c : Nat) (r : SceneRef) (w : World Text) (a : Action Text) :
    Decidable (w.LandsInTime c r a) :=
  inferInstanceAs (Decidable (w.AtHandler c _ a))

/-- The invariant of the scene `r` and the connection `c`. -/
structure Watches (steady : Prop) (r : SceneRef) (c : Nat) (w : World Text) : Prop where
  wf : w.Wf
  sound : World.SoundAt r w
  quiet : (w.conns c).Quiet
  follows : Follows steady r (w.conns c) (w.inner.heap r).scene (w.inner.heap r).inFlight

namespace Watches

variable {P : Platform Text} {steady : Prop} {r : SceneRef} {c : Nat} {w w' : World Text}
  {a : Action Text}

theorem init (start : w.Init) : Watches steady r c w where
  wf := start.wf
  sound := World.SoundAt.init start r
  quiet := by simp [Connection.Quiet, Connection.link, start.awaiting c, start.silent c]
  follows := Follows.elsewhere (by simp [Connection.link, start.awaiting c, Link.scene])

theorem step (watches : Watches steady r c w) (serial : World.SerialAt r w)
    (serial' : World.SerialAt r w') (calm : steady → ∀ d, ¬w.Leaves a d r)
    (lands : w.LandsInTime c r a)
    (h : w.step P a = some w') : Watches steady r c w' := by
  have handled : (w'.conns c).Quiet ∧
      Follows steady r (w'.conns c) (w.inner.heap r).scene (w.inner.heap r).inFlight := by
    refine World.conn_step (Q := fun conn => conn.Quiet ∧
      Follows steady r conn (w.inner.heap r).scene (w.inner.heap r).inFlight) h
      (fun _ => ⟨watches.quiet, watches.follows.congr rfl rfl rfl⟩)
      ⟨trivial, Follows.elsewhere nofun⟩ fun amb o taken stepped => ?_
    subst taken
    have move := Connection.move_of_step stepped
    exact ⟨watches.quiet.move move,
      watches.follows.move watches.sound watches.quiet (lands rfl) move⟩
  refine ⟨watches.wf.step h, watches.sound.step serial serial' h, handled.1, ?_⟩
  by_cases exists_ : r < w.inner.nextRef
  · rcases World.emission_cases exists_ serial serial' h with emission | ⟨⟨d, leaves⟩, scene, calls⟩
    · exact handled.2.scene_step emission
    · rw [scene, calls]
      exact handled.2.scene_change fun st => calm st d leaves
  · exact Follows.elsewhere fun linked => exists_ (watches.wf.link_of_step h linked)

/-- The invariant along a run with one emitter at a time on the scene. -/
theorem run {schedule : List (Action Text)} (start : w.Init)
    (serial : Always (World.step P) (World.SerialAt r) w schedule)
    (calm : Along (World.step P) (fun w a => steady → ∀ d, ¬w.Leaves a d r) w schedule)
    (lands : Along (World.step P) (World.LandsInTime c r) w schedule)
    (reach : Foundation.run (World.step P) w schedule = some w') : Watches steady r c w' := by
  refine Along.invariant ?_ (init start) ((serial.along.and calm).and lands) reach
  rintro w a w' watches ⟨⟨⟨before, after⟩, calm⟩, lands⟩ h
  exact watches.step before (after w' h) calm lands h

/-- What the latest snapshot and the deltas sent after it amount to. -/
theorem synced (watches : Watches steady r c w) (attached : (w.conns c).link = .attached r)
    {S : Snapshot} {later : List ServerFrame}
    (sent : latestSnapshot (w.conns c).outbox = some (S, later)) :
    ∃ start, Synced steady S later start (w.conns c).deltas (w.inner.heap r).scene
      (w.inner.heap r).inFlight := by
  have follows := watches.follows
  unfold Follows at follows
  rw [attached] at follows
  exact follows rfl S later sent

end Watches

/-! ## The handshake -/

/-- The connection is not on its way to another scene. -/
def Connection.Uncrossed (conn : Connection Text) : Prop :=
  match conn.link with
  | .crossing _ | .crossingAt .. | .landing _ => False
  | _ => True

/-- The deltas above the number of the snapshot carry the numbers that follow it. -/
def Consecutive (S : Snapshot) (later : List ServerFrame) : Prop :=
  let above := (deltasOf later).filter fun d => S.seq < d.seq
  above.map (·.seq) = numbersAbove S.seq (S.seq + above.length)

/-- What was sent on a connection to the scene `r`, also after it is closed. -/
def Connection.Records (r : SceneRef) (conn : Connection Text) : Prop :=
  conn.current = some r → ∀ S later, latestSnapshot conn.outbox = some (S, later) →
    Consecutive S later

/-- An error frame or a closed socket adds no delta. -/
theorem Connection.Records.closing {r : SceneRef} {conn conn' : Connection Text}
    {frames : List ServerFrame} (records : conn.Records r) (current : conn'.current = conn.current)
    (outbox : conn'.outbox = conn.outbox ++ frames)
    (errors : frames = [] ∨ ∃ f, frames = [.error f]) : conn'.Records r := by
  unfold Connection.Records at records ⊢
  rw [current, outbox]
  intro linked S later sent
  rcases errors with rfl | ⟨f, rfl⟩
  · rw [List.append_nil] at sent
    exact records linked S later sent
  · rw [latestSnapshot_concat rfl, Option.map_eq_some_iff] at sent
    obtain ⟨⟨_, front⟩, earlier, eq⟩ := sent
    cases eq
    have same : deltasOf (front ++ [.error f]) = deltasOf front := by
      rw [deltasOf_append]
      exact List.append_nil _
    rw [Consecutive, same]
    exact records linked _ front earlier

/-- `Watches`, in a run without scene swaps. -/
structure Stays (r : SceneRef) (c : Nat) (w : World Text) : Prop where
  watches : Watches True r c w
  uncrossed : (w.conns c).Uncrossed
  records : (w.conns c).Records r

namespace Stays

variable {P : Platform Text} {r : SceneRef} {c : Nat} {w w' : World Text} {a : Action Text}

theorem init (start : w.Init) : Stays r c w where
  watches := Watches.init start
  uncrossed := by simp [Connection.Uncrossed, Connection.link, start.awaiting c]
  records := fun linked => by simp [start.unresolved c] at linked

theorem uncrossed_step (stays : Stays r c w) (kept : w.leaving a = false)
    (h : w.step P a = some w') : (w'.conns c).Uncrossed := by
  have uncrossed := stays.uncrossed
  refine World.conn_step (Q := Connection.Uncrossed) h (fun _ => uncrossed) trivial
    fun amb o taken stepped => ?_
  subst taken
  unfold Connection.Uncrossed at uncrossed ⊢
  cases Connection.move_of_step stepped with
  | still link => rw [link]; exact uncrossed
  | @refuse _ _ stop _ _ link => rw [link]; cases stop <;> trivial
  | leave _ phase => simp [World.leaving, phase] at kept
  | crossSeq before => simp [before] at uncrossed
  | crossSnapshot before => simp [before] at uncrossed
  | _ => simp_all

theorem records_step (stays : Stays r c w) (watches : Watches True r c w')
    (uncrossed : (w'.conns c).Uncrossed) (h : w.step P a = some w') :
    (w'.conns c).Records r := by
  have records := stays.records
  cases link : (w'.conns c).link with
  | detached | opening q | reading q seq =>
      have quiet := watches.quiet
      unfold Connection.Quiet at quiet
      rw [link] at quiet
      intro _ S later sent
      rw [quiet] at sent
      cases sent
  | attached q =>
      intro linked S later sent
      rw [Connection.current_of_attached link] at linked
      cases linked
      obtain ⟨start, synced⟩ := watches.synced link sent
      exact synced.delivered_numbers trivial
  | crossing q | crossingAt q seq | landing q =>
      simp [Connection.Uncrossed, link] at uncrossed
  | closed =>
      rcases World.conn_cases h c with same | ⟨m, _, same⟩ | ⟨_, same⟩ |
        ⟨amb, o, rfl, stepped, same, _⟩
      · rw [same]
        exact records
      · rw [same]
        exact records
      · rw [same]
        exact records
      · rw [same] at link ⊢
        cases Connection.move_of_step stepped with
        | still before =>
            have ended : (w.conns c).phase = .closed :=
              Connection.phase_of_closed (before.symm.trans link)
            rw [Connection.step, ended] at stepped
            cases stepped
        | close _ outbox _ current =>
            exact records.closing current (by rw [outbox, List.append_nil]) (.inl rfl)
        | deny before _ f outbox =>
            intro _ S later sent
            rw [outbox, stays.watches.quiet.empty_of_detached before] at sent
            cases sent
        | refuse _ _ _ _ outbox _ _ current => exact records.closing current outbox (.inr ⟨_, rfl⟩)
        | _ => simp_all

theorem step (stays : Stays r c w) (serial : World.SerialAt r w) (serial' : World.SerialAt r w')
    (kept : w.leaving a = false) (h : w.step P a = some w') : Stays r c w' := by
  have calm : ∀ d q, ¬w.Leaves a d q := by
    intro d q leaves
    rw [leaves.leaving] at kept
    cases kept
  have lands : w.LandsInTime c r a := by
    cases a with
    | handler d amb =>
        rintro rfl phase
        have uncrossed := stays.uncrossed
        simp [Connection.Uncrossed, Connection.link, phase] at uncrossed
    | _ => trivial
  have watches := stays.watches.step serial serial' (fun _ d => calm d r) lands h
  have uncrossed := stays.uncrossed_step kept h
  exact ⟨watches, uncrossed, stays.records_step watches uncrossed h⟩

theorem run {schedule : List (Action Text)} (start : w.Init)
    (serial : Always (World.step P) (World.SerialAt r) w schedule)
    (kept : Along (World.step P) (fun w a => w.leaving a = false) w schedule)
    (reach : Foundation.run (World.step P) w schedule = some w') : Stays r c w' := by
  refine Along.invariant ?_ (init start) (serial.along.and kept) reach
  rintro w a w' stays ⟨⟨before, after⟩, kept⟩ h
  exact stays.step before (after w' h) kept h

end Stays

/-- In every run without scene swaps, the deltas sent above the number of the
snapshot are consecutive from the first one on, and once the emitter is idle and the
queue is drained they reach the counter and fold the snapshot's state to the store. -/
theorem handshake_delivers {P : Platform Text} {start stop : World Text} {r : SceneRef} {c : Nat}
    {schedule : List (Action Text)} {S : Snapshot} {later : List ServerFrame} (init : start.Init)
    (serial : Always (World.step P) (World.SerialAt r) start schedule)
    (kept : Along (World.step P) (fun w a => w.leaving a = false) start schedule)
    (reach : run (World.step P) start schedule = some stop)
    (current : (stop.conns c).current = some r)
    (sent : latestSnapshot (stop.conns c).outbox = some (S, later)) :
    let above := (deltasOf later).filter fun d => S.seq < d.seq
    above.map (·.seq) = numbersAbove S.seq (S.seq + above.length) ∧
      ((stop.conns c).link = .attached r → (stop.inner.heap r).calls = [] →
        (stop.inner.heap r).scene.tx.recv (stop.conns c).deltas = .empty →
          above.map (·.seq) = numbersAbove S.seq (stop.inner.heap r).scene.seq ∧
            overwrite S.state (writesOf (above.map deltaBatch)) =
              (stop.inner.heap r).scene.store) := by
  have stays := Stays.run (c := c) init serial kept reach
  refine ⟨stays.records current S later sent, fun attached idle drained => ?_⟩
  obtain ⟨position, synced⟩ := stays.watches.synced attached sent
  rw [SceneCell.inFlight, idle] at synced
  have all := (Broadcast.recv_eq_empty.mp drained).2
  refine ⟨?_, synced.folds_of_drained all⟩
  have gapless := synced.reached.gapless trivial
  rw [allocated, List.map_nil, List.filterMap_nil, List.append_nil] at gapless
  rw [synced.delivered_above, List.take_of_length_le all, ← gapless, List.filter_map,
    List.map_map]
  rfl


/-! ## A server with two scenes -/

/-- A server with two scenes that has not served yet. -/
def twoScenes : World Value where
  inner :=
    { heap := fun r => { scene := Scene.new (if r = 0 then "studio" else "stage") "v1" }
      nextRef := 2
      scenes := ((∅ : Std.ExtTreeMap String SceneRef).insert "studio" 0).insert "stage" 1
      active := some "studio"
      events := Broadcast.new eventCapacity }
  tasks := fun _ => none
  conns := fun _ => { rate := RateBucket.new 0 0 }

theorem twoScenes_init : twoScenes.Init where
  registered := by
    intro id r found
    simp only [twoScenes, ServerInner.scene, Std.ExtTreeMap.getElem?_insert] at found ⊢
    split at found
    · cases found; decide
    · split at found
      · cases found; decide
      · simp at found
  idle := fun _ => rfl
  sound := fun _ => Sound.fresh rfl rfl rfl
  awaiting := fun _ => rfl
  unresolved := fun _ => rfl
  silent := fun _ => rfl

/-- An operator's handler step. -/
def operatorStep (c : Nat) : Action Value :=
  .handler c
    { clock := { instant := 0, unixSecs := 0, millis := 0 }
      identity := some { subject := "", role := .operator, paths := none } }

/-- The handshake of connection `c`, up to its snapshot. -/
def connect (c : Nat) : List (Action Value) :=
  .receive c (.text (.object [("token", .string "t"), ("type", .string "subscribe"),
    ("v", .number (.posInt 1))])) ::
    List.replicate 8 (operatorStep c)

/-- A whole emission of an adapter. -/
def emission (r : SceneRef) (value : Bool) : List (Action Value) :=
  .scene r (.emit (.adapter 0) [("lamp", .bool value)] none) ::
    List.replicate 4 (.scene r (.progress (.adapter 0)))

/-- A whole `set_active_scene` call. -/
def activation (id : SceneId) : List (Action Value) :=
  .request 0 (.setActiveScene id) :: List.replicate 3 (.serve 0)

/-- The scene of a connection, and the numbers of its snapshot and deltas. -/
def received (c : Nat) (w : World Value) : Option SceneRef × Option (Nat × List Nat) :=
  ((w.conns c).current,
    (latestSnapshot (w.conns c).outbox).map fun x => (x.1.seq, (deltasOf x.2).map (·.seq)))

private def oneDelta : List (Action Value) :=
  connect 0 ++ emission 0 true ++ List.replicate 3 (operatorStep 0)

theorem handshake_delivers_oneDelta :
    ∃ stop S later, run (World.step valuePlatform) twoScenes oneDelta = some stop ∧
      latestSnapshot (stop.conns 0).outbox = some (S, later) ∧
      (deltasOf later).map (·.seq) = [2] ∧ Consecutive S later := by
  have serial : Always (World.step valuePlatform) (World.SerialAt 0) twoScenes oneDelta := by
    decide
  have kept : Along (World.step valuePlatform) (fun w a => w.leaving a = false) twoScenes
      oneDelta := by
    decide
  have ends : (run (World.step valuePlatform) twoScenes oneDelta).map (received 0) =
      some (some 0, some (1, [2])) := by
    decide
  obtain ⟨stop, reach, seen⟩ := Option.map_eq_some_iff.mp ends
  obtain ⟨current, sent⟩ := Prod.mk.inj seen
  obtain ⟨⟨S, later⟩, sent, numbers⟩ := Option.map_eq_some_iff.mp sent
  exact ⟨stop, S, later, reach, sent, (Prod.mk.inj numbers).2,
    (handshake_delivers twoScenes_init serial kept reach current sent).1⟩

/-! ## Swaps -/

/-- In every run in which the connection subscribes to the new scene in time, every
delta of that scene above the number of the latest snapshot is sent or queued, and
once the emitter is idle and the queue is drained, the snapshot and the deltas sent
after it give the store. -/
theorem swap_loses_nothing {P : Platform Text} {start stop : World Text} {r : SceneRef} {c : Nat}
    {schedule : List (Action Text)} {S : Snapshot} {later : List ServerFrame} (init : start.Init)
    (serial : Always (World.step P) (World.SerialAt r) start schedule)
    (lands : Along (World.step P) (World.LandsInTime c r) start schedule)
    (reach : run (World.step P) start schedule = some stop)
    (attached : (stop.conns c).link = .attached r)
    (sent : latestSnapshot (stop.conns c).outbox = some (S, later)) :
    (∀ p ∈ (stop.inner.heap r).scene.tx.sent, S.seq < p.seq →
        ServerFrame.delta p.frame ∈ later ∨
          p ∈ (stop.inner.heap r).scene.tx.sent.drop (stop.conns c).deltas) ∧
      ((stop.inner.heap r).calls = [] →
        (stop.inner.heap r).scene.tx.recv (stop.conns c).deltas = .empty →
          overwrite S.state (writesOf ((deltasOf later).map deltaBatch)) =
            (stop.inner.heap r).scene.store) := by
  have calm : Along (World.step P) (fun w a => False → ∀ d, ¬w.Leaves a d r) start schedule :=
    Along.mono (fun _ _ _ => False.elim) lands
  have watches := Watches.run init serial calm lands reach
  obtain ⟨position, synced⟩ := watches.synced attached sent
  refine ⟨fun p hp above => synced.sent_or_queued hp above, fun idle drained => ?_⟩
  rw [SceneCell.inFlight, idle] at synced
  exact synced.rebuilds_of_drained (Broadcast.recv_eq_empty.mp drained).2

/-- An emission between the snapshot of the new scene and the subscription to it. -/
private def lateLanding : List (Action Value) :=
  connect 0 ++ activation "stage" ++ List.replicate 6 (operatorStep 0) ++ emission 1 true ++
    [operatorStep 0]

/-- An emission after the subscription. -/
private def timelyLanding : List (Action Value) :=
  connect 0 ++ activation "stage" ++ List.replicate 7 (operatorStep 0) ++ emission 1 true ++
    List.replicate 3 (operatorStep 0)

theorem swap_loses_nothing_timelyLanding :
    ∃ stop S later, run (World.step valuePlatform) twoScenes timelyLanding = some stop ∧
      latestSnapshot (stop.conns 0).outbox = some (S, later) ∧
      (deltasOf later).map (·.seq) = [2] ∧
      ∀ p ∈ (stop.inner.heap 1).scene.tx.sent, S.seq < p.seq →
        ServerFrame.delta p.frame ∈ later ∨
          p ∈ (stop.inner.heap 1).scene.tx.sent.drop (stop.conns 0).deltas := by
  have serial : Always (World.step valuePlatform) (World.SerialAt 1) twoScenes timelyLanding := by
    decide
  have lands : Along (World.step valuePlatform) (World.LandsInTime 0 1) twoScenes
      timelyLanding := by
    decide
  have ends : (run (World.step valuePlatform) twoScenes timelyLanding).any (fun stop =>
      (stop.conns 0).link = .attached 1 ∧ received 0 stop = (some 1, some (1, [2]))) = true := by
    decide
  obtain ⟨stop, reach, attached, seen⟩ := exists_run_of_any ends
  obtain ⟨⟨S, later⟩, sent, numbers⟩ := Option.map_eq_some_iff.mp (Prod.mk.inj seen).2
  exact ⟨stop, S, later, reach, sent, (Prod.mk.inj numbers).2,
    (swap_loses_nothing twoScenes_init serial lands reach attached sent).1⟩

/-- With the emitter idle and nothing queued, a delta above the number of the snapshot
was not sent, and the snapshot and the deltas sent do not give the store. -/
theorem swap_loses_delta_of_lateLanding :
    Always (World.step valuePlatform) (World.SerialAt 1) twoScenes lateLanding ∧
      ∃ stop, run (World.step valuePlatform) twoScenes lateLanding = some stop ∧
        (stop.conns 0).link = .attached 1 ∧ (stop.inner.heap 1).calls = [] ∧
        (stop.inner.heap 1).scene.tx.recv (stop.conns 0).deltas = .empty ∧
        ∃ x ∈ latestSnapshot (stop.conns 0).outbox,
          (∃ p ∈ (stop.inner.heap 1).scene.tx.sent, x.1.seq < p.seq ∧
            ServerFrame.delta p.frame ∉ x.2) ∧
          overwrite x.1.state (writesOf ((deltasOf x.2).map deltaBatch)) ≠
            (stop.inner.heap 1).scene.store :=
  ⟨by decide, exists_run_of_any (by decide)⟩

end Lumencast.Server
