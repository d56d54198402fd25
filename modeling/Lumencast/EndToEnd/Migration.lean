import Lumencast.Client.Manager
import Lumencast.Server.NoLoss
import Lumencast.Server.Queue

/-!
# Sequence numbers across scene swaps

A scene's counter is shared by its connections, and each of them advances it when
it carries out a swap. The client sees no gap on a connection as long as it has
been sent everything before it leaves a scene, no other connection leaves a scene
that it still listens to, and it subscribes to the new scene in time.

`Aligned` is the invariant of one connection and one scene, by the connection's
link to it; the numbers still to be sent are described by `Upcoming`.
-/

namespace Lumencast.EndToEnd

open Foundation Protocol Server Client

variable {Text : Type}

/-- Snapshots, deltas and scene changes. -/
def isPosition : ServerFrame → Bool
  | .snapshot _ | .delta _ | .sceneChanged _ => true
  | .error _ | .pong _ => false

/-- The snapshots, deltas and scene changes among frames. -/
def positions (frames : List ServerFrame) : List ServerFrame := frames.filter isPosition

/-- Feed frames to a fresh tracker, which is reset after each scene change. -/
def feed (frames : List ServerFrame) : Except FrameDispatch SequenceTracker :=
  frames.foldlM (fun tracker frame => (·.1) <$> handleFrame tracker frame) SequenceTracker.new

/-- The tracker finds no gap, and a scene change is at most one above the highest
number since the one before it. -/
structure NoGap (frames : List ServerFrame) : Prop where
  accepted : ∃ tracker, feed (positions frames) = .ok tracker
  changes : ∀ front f rest, positions frames = front ++ .sceneChanged f :: rest →
    highestSeq front = 0 ∨ f.seq ≤ highestSeq front + 1

theorem feed_of_unbroken {frames : List ServerFrame} (unbroken : Unbroken frames) :
    feed frames = .ok ⟨highestSeq frames⟩ := by
  induction frames using List.reverseRecOn with
  | nil => rfl
  | append_singleton front f ih =>
      obtain ⟨earlier, continues⟩ := unbroken_concat.mp unbroken
      obtain ⟨events, handled⟩ := @handleFrame_of_continues ⟨highestSeq front⟩ f continues
      rw [feed, List.foldlM_append, ← feed, ih earlier]
      simp [bind, Except.bind, handled]
      rfl

theorem noGap_of_unbroken {frames : List ServerFrame} (unbroken : Unbroken (positions frames)) :
    NoGap frames where
  accepted := ⟨_, feed_of_unbroken unbroken⟩
  changes := by
    intro front f rest split
    rw [split, Unbroken, unbrokenFrom_append] at unbroken
    have continues : Continues (highestSeq front) (.sceneChanged f) := unbroken.2.1
    have bound := continues f.seq rfl
    split at bound
    · next fresh => exact .inl fresh
    · exact .inr bound

/-- Deltas with consecutive numbers skip none. -/
theorem unbroken_deltas {low high : Nat} (le : low ≤ high) {deltas : List Delta}
    (numbers : deltas.map (·.seq) = numbersAbove low high) :
    Unbroken (deltas.map .delta) ∧
      highestSeq (deltas.map .delta) = if low < high then high else 0 := by
  induction high, le using Nat.le_induction generalizing deltas with
  | base =>
      rw [numbersAbove_eq_nil (Nat.le_refl low), List.map_eq_nil_iff] at numbers
      subst numbers
      exact ⟨trivial, by simp [highestSeq]⟩
  | succ high le ih =>
      rw [numbersAbove_succ le] at numbers
      obtain ⟨front, last, rfl, earlier, final⟩ := List.map_eq_append_iff.mp numbers
      obtain ⟨d, rfl, number⟩ := List.map_eq_singleton_iff.mp final
      obtain ⟨unbroken, highest⟩ := ih earlier
      rw [List.map_append, List.map_singleton, unbroken_concat, highestSeq_concat, highest]
      refine ⟨⟨unbroken, ?_⟩, ?_⟩
      · rintro _ ⟨⟩
        have number' : d.seq = high + 1 := number
        rcases Nat.lt_or_eq_of_le le with lt | rfl
        · have positive : high ≠ 0 := by omega
          simp [lt, positive, number']
        · simp [number']
      · have grown : low < high + 1 := Nat.lt_succ_of_le le
        simp only [highestAfter, ServerFrame.seq, Option.getD_some, number, if_pos grown]
        split <;> omega

/-! ## One connection and one scene -/

/-- The highest number sent on a connection since its last scene change. -/
def top (conn : Connection Text) : Nat := highestSeq (positions conn.outbox)

/-- A connection relies on the counter of the scene `r`: it has read its baseline, or
has deltas of the scene in its queue. -/
def Expects (r : SceneRef) (conn : Connection Text) (cell : SceneCell Text) : Prop :=
  match conn.link with
  | .reading q _ | .crossingAt q _ | .landing q => q = r
  | .attached q =>
      q = r ∧ (top conn ≠ 0 ∨ queued conn.deltas cell.scene cell.inFlight ≠ [])
  | .detached | .opening _ | .crossing _ | .closed => False

instance (r : SceneRef) (conn : Connection Text) (cell : SceneCell Text) :
    Decidable (Expects r conn cell) := by
  unfold Expects
  cases conn.link <;> infer_instance

/-- The numbers that a connection has been sent and will be sent of the scene `r`. -/
def Aligned (r : SceneRef) (conn : Connection Text) (s : Scene Text) (es : List Emission) :
    Prop :=
  match conn.link with
  | .opening q => q = r → conn.deltas ≤ s.tx.sent.length
  | .reading q seq => q = r → 1 ≤ seq ∧ Upcoming seq conn.deltas s es
  | .attached q => q = r → Upcoming (top conn) conn.deltas s es
  | .crossing q => q = r → top conn = 0
  | .crossingAt q seq => q = r → top conn = 0 ∧ Reached True seq s es
  | .landing q => q = r → Reached True (top conn) s es
  | .detached | .closed => True

/-- When a handler leaves a scene, everything up to its counter was sent. When it
subscribes after a swap, nothing above the snapshot was broadcast. When it answers a
resume, no number was lost to a scene change. -/
def InTurn (inner : ServerInner Text) (conn : Connection Text) : Prop :=
  match conn.phase with
  | .advancing _ => ∀ r ∈ conn.current,
      top conn = 0 ∨ (inner.heap r).scene.currentSeq ≤ top conn
  | .resubscribing r => ∀ p ∈ (inner.heap r).scene.tx.sent, p.seq ≤ top conn
  | .replaying since => ∀ r ∈ conn.current,
      ((inner.heap r).scene.replaySince since).covered = true →
        Complete since conn.deltas (inner.heap r).scene (inner.heap r).inFlight
  | _ => True

instance (inner : ServerInner Text) (conn : Connection Text) : Decidable (InTurn inner conn) := by
  unfold InTurn
  exact match conn.phase with
    | .advancing _ | .resubscribing _ | .replaying _ => inferInstance
    | .awaiting | .resolving _ | .lookingUp .. | .checking _ | .subscribing _
    | .subscribingEvents _ | .comparing _ | .readingSeq | .readingState _ | .denying _ | .live
    | .pollingEvents | .pollingDeltas | .refusing .. | .migrating _ | .swapReadingSeq _
    | .swapReadingState .. | .closed => isTrue trivial

namespace Aligned

variable {r : SceneRef} {conn conn' : Connection Text} {s s' : Scene Text}
  {es es' : List Emission}

/-- A connection that is linked elsewhere. -/
theorem elsewhere (h : conn.link.scene ≠ some r) : Aligned r conn s es := by
  unfold Aligned
  split <;> first | trivial | (intro same; simp_all [Link.scene])

section Links

variable {q : SceneRef} {seq : Nat}

theorem opening_iff (link : conn.link = .opening q) :
    Aligned q conn s es ↔ conn.deltas ≤ s.tx.sent.length := by
  simp [Aligned, link]

theorem reading_iff (link : conn.link = .reading q seq) :
    Aligned q conn s es ↔ 1 ≤ seq ∧ Upcoming seq conn.deltas s es := by
  simp [Aligned, link]

theorem attached_iff (link : conn.link = .attached q) :
    Aligned q conn s es ↔ Upcoming (top conn) conn.deltas s es := by
  simp [Aligned, link]

theorem crossing_iff (link : conn.link = .crossing q) :
    Aligned q conn s es ↔ top conn = 0 := by
  simp [Aligned, link]

theorem crossingAt_iff (link : conn.link = .crossingAt q seq) :
    Aligned q conn s es ↔ top conn = 0 ∧ Reached True seq s es := by
  simp [Aligned, link]

theorem landing_iff (link : conn.link = .landing q) :
    Aligned q conn s es ↔ Reached True (top conn) s es := by
  simp [Aligned, link]

end Links

theorem congr (aligned : Aligned r conn s es) (link : conn'.link = conn.link)
    (same : top conn' = top conn) (deltas : conn'.deltas = conn.deltas) :
    Aligned r conn' s es := by
  unfold Aligned at aligned ⊢
  rw [link, same, deltas]
  exact aligned

/-- A step of the emitter. -/
theorem scene_step (aligned : Aligned r conn s es) (h : EmissionStep s es s' es') :
    Aligned r conn s' es' := by
  unfold Aligned at aligned ⊢
  cases link : conn.link with
  | detached | closed => trivial
  | opening q =>
      rw [link] at aligned
      intro same
      have within := aligned same
      rcases h.sent_eq.2 with same | ⟨p, more⟩
      · rw [same]
        exact within
      · rw [more, List.length_append]
        exact Nat.le_add_right_of_le within
  | reading q seq =>
      rw [link] at aligned
      exact fun same => ⟨(aligned same).1, (aligned same).2.step h⟩
  | attached q =>
      rw [link] at aligned
      exact fun same => (aligned same).step h
  | crossing q =>
      rw [link] at aligned
      exact aligned
  | crossingAt q seq =>
      rw [link] at aligned
      exact fun same => ⟨(aligned same).1, (aligned same).2.step h⟩
  | landing q =>
      rw [link] at aligned
      exact fun same => (aligned same).step h

/-- Another connection leaves the scene. -/
theorem scene_change {cell : SceneCell Text} (aligned : Aligned r conn cell.scene cell.inFlight)
    (free : ¬Expects r conn cell) : Aligned r conn cell.scene.advanceSeq cell.inFlight := by
  unfold Aligned at aligned ⊢
  unfold Expects at free
  cases link : conn.link with
  | detached | closed => trivial
  | opening q | crossing q =>
      rw [link] at aligned
      exact aligned
  | reading q seq | crossingAt q seq | landing q =>
      rw [link] at free
      exact fun same => absurd same free
  | attached q =>
      rw [link] at aligned free
      intro same
      simp only [not_and, not_or, not_not] at free
      exact (aligned same).change (free same).1 (free same).2

/-- A connection linked to the scene `q` after a step. -/
theorem of_link {inner : ServerInner Text} {q : SceneRef} (linked : conn.link.scene = some q)
    (aligned : Aligned q conn (inner.heap q).scene (inner.heap q).inFlight) (r : SceneRef) :
    Aligned r conn (inner.heap r).scene (inner.heap r).inFlight := by
  by_cases same : q = r
  · exact same ▸ aligned
  · exact elsewhere (by rw [linked]; simpa using same)

end Aligned

theorem positions_concat {frames : List ServerFrame} {f : ServerFrame}
    (position : isPosition f = true) : positions (frames ++ [f]) = positions frames ++ [f] := by
  simp [positions, position]

theorem positions_concat_other {frames : List ServerFrame} {f : ServerFrame}
    (other : isPosition f = false) : positions (frames ++ [f]) = positions frames := by
  simp [positions, other]

/-- A connection whose numbers skip none, and what it expects of each scene. -/
structure Contiguous (inner : ServerInner Text) (conn : Connection Text) : Prop where
  quiet : conn.Quiet
  unbroken : Unbroken (positions conn.outbox)
  aligned : ∀ r, Aligned r conn (inner.heap r).scene (inner.heap r).inFlight

namespace Contiguous

variable {inner : ServerInner Text} {conn : Connection Text} {c : Nat} {o : Outcome Text}

/-- A step that sends no position. -/
theorem kept (contiguous : Contiguous inner conn) (quiet : o.conn.Quiet)
    (same : positions o.conn.outbox = positions conn.outbox)
    (aligned : top o.conn = top conn →
      ∀ r, Aligned r o.conn (inner.heap r).scene (inner.heap r).inFlight) :
    Contiguous inner o.conn :=
  ⟨quiet, same ▸ contiguous.unbroken, aligned (congrArg highestSeq same)⟩

/-- A step that sends a position. -/
theorem sent (contiguous : Contiguous inner conn) (quiet : o.conn.Quiet) {f : ServerFrame}
    (outbox : o.conn.outbox = conn.outbox ++ [f]) (position : isPosition f = true)
    (continues : Continues (top conn) f)
    (aligned : top o.conn = highestAfter (top conn) f →
      ∀ r, Aligned r o.conn (inner.heap r).scene (inner.heap r).inFlight) :
    Contiguous inner o.conn := by
  have more : positions o.conn.outbox = positions conn.outbox ++ [f] := by
    rw [outbox, positions_concat position]
  refine ⟨quiet, ?_, aligned ?_⟩
  · rw [more]
    exact unbroken_concat.mpr ⟨contiguous.unbroken, continues⟩
  · rw [top, more, highestSeq_concat]
    rfl

/-- The answer with the ring. -/
theorem resume (contiguous : Contiguous inner conn) {q : SceneRef} {since : Nat}
    (sound : Sound (inner.heap q).scene (inner.heap q).inFlight) (inTurn : InTurn inner conn)
    (quiet' : o.conn.Quiet) (before : conn.link = .opening q)
    (phase : conn.phase = .replaying since) (link : o.conn.link = .attached q)
    (covered : ((inner.heap q).scene.replaySince since).covered = true)
    (outbox : o.conn.outbox = conn.outbox ++
      ((inner.heap q).scene.replaySince since).records.map fun r => .delta r.frame)
    (deltas : o.conn.deltas = conn.deltas) : Contiguous inner o.conn := by
  have quiet := contiguous.quiet.empty_of_opening before
  have within := (Aligned.opening_iff before).mp (contiguous.aligned q)
  have current : conn.current = some q := by
    rw [Connection.link, phase] at before
    cases conn_current : conn.current <;> simp_all
  unfold InTurn at inTurn
  rw [phase] at inTurn
  obtain ⟨low, high, le, numbers, upcoming⟩ := Upcoming.resume sound
    within (inTurn q current covered) covered
  have all : positions o.conn.outbox = (((inner.heap q).scene.replaySince since).records.map
      ReplayRecord.frame).map .delta := by
    rw [outbox, quiet, List.nil_append, positions, List.map_map, List.filter_eq_self.mpr]
    · rfl
    · intro f hf
      obtain ⟨record, _, rfl⟩ := List.mem_map.mp hf
      rfl
  have framed : (((inner.heap q).scene.replaySince since).records.map ReplayRecord.frame).map
      (·.seq) = numbersAbove low high := by
    rw [List.map_map]
    exact numbers
  obtain ⟨unbroken, highest⟩ := unbroken_deltas le framed
  refine ⟨quiet', all ▸ unbroken, Aligned.of_link (by rw [link]; rfl) ?_⟩
  rw [Aligned.attached_iff link, top, all, highest, deltas]
  exact upcoming

/-- The next delta of the queue. -/
theorem deliver (contiguous : Contiguous inner conn) {q : SceneRef} {p : DeltaPayload} {next : Nat}
    (sound : Sound (inner.heap q).scene (inner.heap q).inFlight) (quiet' : o.conn.Quiet)
    (before : conn.link = .attached q) (link : o.conn.link = .attached q)
    (received : (inner.heap q).scene.tx.recv conn.deltas = .message p next)
    (outbox : o.conn.outbox = conn.outbox ++ [.delta p.frame]) (deltas : o.conn.deltas = next) :
    Contiguous inner o.conn := by
  have aligned := (Aligned.attached_iff before).mp (contiguous.aligned q)
  obtain ⟨follows, upcoming⟩ := aligned.deliver sound received
  refine contiguous.sent quiet' outbox rfl ?_ fun grown =>
    Aligned.of_link (by rw [link]; rfl) ?_
  · rintro _ ⟨⟩
    split
    · exact sound.numbered _ (List.mem_append_left _ (List.mem_map_of_mem
        (List.mem_of_getElem? (Broadcast.recv_eq_message.mp received).2.1)))
    · exact follows (by omega)
  · rw [Aligned.attached_iff link, grown, deltas]
    exact upcoming

/-- The first step of a swap. -/
theorem leave (contiguous : Contiguous inner conn) {q target : SceneRef} {clock : Clock}
    (inTurn : InTurn inner conn) (quiet' : o.conn.Quiet) (before : conn.link = .attached q)
    (phase : conn.phase = .advancing target) (link : o.conn.link = .crossing target)
    (outbox : o.conn.outbox = conn.outbox ++ [Connection.sceneChangedFrame
      (inner.heap target).scene (inner.heap q).scene.nextSeq clock]) : Contiguous inner o.conn := by
  have aligned := (Aligned.attached_iff before).mp (contiguous.aligned q)
  unfold InTurn at inTurn
  rw [phase] at inTurn
  have new : top conn < (inner.heap q).scene.nextSeq := Nat.lt_succ_of_le aligned.reached
  refine contiguous.sent quiet' outbox rfl ?_ fun grown =>
    Aligned.of_link (by rw [link]; rfl) ?_
  · rintro _ ⟨⟩
    split
    · exact Nat.succ_pos _
    · next started =>
      exact Nat.succ_le_succ
        ((inTurn q (Connection.current_of_attached before)).resolve_left started)
  · rw [Aligned.crossing_iff link, grown]
    exact if_neg (Nat.not_le.mpr new)

/-- A handler step in turn, on the scenes as they are. -/
theorem move (contiguous : Contiguous inner conn)
    (sound : ∀ r, conn.link.scene = some r → Sound (inner.heap r).scene (inner.heap r).inFlight)
    (inTurn : InTurn inner conn) (h : Connection.Move inner c conn o) :
    Contiguous inner o.conn := by
  have quiet' := contiguous.quiet.move h
  cases h with
  | still link outbox deltas =>
      exact contiguous.kept quiet' (by rw [outbox]) fun same r =>
        (contiguous.aligned r).congr link same deltas
  | pong before link f outbox deltas =>
      exact contiguous.kept quiet' (by rw [outbox, positions_concat_other rfl]) fun same r =>
        (contiguous.aligned r).congr (link.trans before.symm) same deltas
  | close link outbox =>
      exact contiguous.kept quiet' (by rw [outbox]) fun _ r =>
        Aligned.elsewhere (by simp [link, Link.scene])
  | deny before link f outbox =>
      exact contiguous.kept quiet' (by rw [outbox, positions_concat_other rfl]) fun _ r =>
        Aligned.elsewhere (by simp [link, Link.scene])
  | @refuse q reply stop before phase link clock outbox deltas =>
      refine contiguous.kept quiet' (by rw [outbox, positions_concat_other rfl]) fun same r => ?_
      cases stop with
      | true => exact Aligned.elsewhere (by simp [link, Link.scene])
      | false => exact (contiguous.aligned r).congr (link.trans before.symm) same deltas
  | @subscribe q before link outbox deltas =>
      refine contiguous.kept quiet' (by rw [outbox]) fun _ =>
        Aligned.of_link (by rw [link]; rfl) ?_
      rw [Aligned.opening_iff link, deltas]
  | @readSeq q before link outbox deltas =>
      refine contiguous.kept quiet' (by rw [outbox]) fun _ =>
        Aligned.of_link (by rw [link]; rfl) ?_
      have within := (Aligned.opening_iff before).mp (contiguous.aligned q)
      rw [Aligned.reading_iff link, deltas]
      exact ⟨(sound q (by rw [before]; rfl)).started, Upcoming.read within⟩
  | @snapshot q seq before link clock outbox deltas =>
      have fresh : top conn = 0 := by rw [top, contiguous.quiet.empty_of_reading before]; rfl
      obtain ⟨positive, upcoming⟩ := (Aligned.reading_iff before).mp (contiguous.aligned q)
      refine contiguous.sent quiet' outbox rfl ?_ fun grown =>
        Aligned.of_link (by rw [link]; rfl) ?_
      · rw [fresh]
        rintro _ ⟨⟩
        exact positive
      · have reached : top o.conn = seq := by
          rw [grown, fresh]
          exact Nat.zero_max seq
        rw [Aligned.attached_iff link, reached, deltas]
        exact upcoming
  | resume before phase link covered outbox deltas =>
      exact contiguous.resume (sound _ (by rw [before]; rfl)) inTurn quiet' before phase link
        covered outbox deltas
  | deliver before link received outbox deltas =>
      exact contiguous.deliver (sound _ (by rw [before]; rfl)) quiet' before link received outbox
        deltas
  | leave before phase link clock outbox =>
      exact contiguous.leave inTurn quiet' before phase link outbox
  | @crossSeq q before link outbox =>
      refine contiguous.kept quiet' (by rw [outbox]) fun same =>
        Aligned.of_link (by rw [link]; rfl) ?_
      have fresh := (Aligned.crossing_iff before).mp (contiguous.aligned q)
      rw [Aligned.crossingAt_iff link, same]
      exact ⟨fresh, Reached.read (sound q (by rw [before]; rfl))⟩
  | @crossSnapshot q seq before link clock outbox =>
      obtain ⟨fresh, reached⟩ := (Aligned.crossingAt_iff before).mp (contiguous.aligned q)
      refine contiguous.sent quiet' outbox rfl ?_ fun grown =>
        Aligned.of_link (by rw [link]; rfl) ?_
      · rw [fresh]
        rintro _ ⟨⟩
        exact reached.positive
      · have baseline : top o.conn = seq := by
          rw [grown, fresh]
          exact Nat.zero_max seq
        rw [Aligned.landing_iff link, baseline]
        exact reached
  | @land q before phase link outbox deltas =>
      refine contiguous.kept quiet' (by rw [outbox]) fun same =>
        Aligned.of_link (by rw [link]; rfl) ?_
      have reached := (Aligned.landing_iff before).mp (contiguous.aligned q)
      unfold InTurn at inTurn
      rw [phase] at inTurn
      rw [Aligned.attached_iff link, same, deltas]
      exact Upcoming.land reached inTurn

end Contiguous

/-! ## Runs -/

/-- A connection that leaves a scene takes no number that `conn` expects. -/
def LeavesAlone (inner : ServerInner Text) (leaver conn : Connection Text) : Prop :=
  match leaver.phase with
  | .advancing _ => ∀ r ∈ leaver.current, ¬Expects r conn (inner.heap r)
  | _ => True

instance (inner : ServerInner Text) (leaver conn : Connection Text) :
    Decidable (LeavesAlone inner leaver conn) := by
  unfold LeavesAlone
  exact match leaver.phase with
    | .advancing _ => inferInstance
    | .awaiting | .resolving _ | .lookingUp .. | .checking _ | .subscribing _
    | .subscribingEvents _ | .comparing _ | .replaying _ | .readingSeq | .readingState _
    | .denying _ | .live | .pollingEvents | .pollingDeltas | .refusing .. | .migrating _
    | .swapReadingSeq _ | .swapReadingState .. | .resubscribing _ | .closed => isTrue trivial

/-- The steps of the connection `c` are in turn, and the other connections leave its
numbers alone. -/
def Orderly (c : Nat) (w : World Text) : Action Text → Prop
  | .handler d _ =>
      if d = c then InTurn w.inner (w.conns d) else LeavesAlone w.inner (w.conns d) (w.conns c)
  | _ => True

instance (c : Nat) (w : World Text) : (a : Action Text) → Decidable (Orderly c w a)
  | .handler d _ => inferInstanceAs (Decidable (if d = c then InTurn w.inner (w.conns d)
      else LeavesAlone w.inner (w.conns d) (w.conns c)))
  | .scene .. | .request .. | .serve _ | .receive .. | .hangup _ => isTrue trivial

/-- The invariant of the connection `c`, over all scenes. -/
structure Migrates (c : Nat) (w : World Text) : Prop where
  wf : w.Wf
  sound : ∀ r < w.inner.nextRef, World.SoundAt r w
  contiguous : Contiguous w.inner (w.conns c)

namespace Migrates

variable {P : Platform Text} {c : Nat} {w w' : World Text} {a : Action Text}

theorem init (start : w.Init) : Migrates c w where
  wf := start.wf
  sound := fun r _ => World.SoundAt.init start r
  contiguous := by
    refine ⟨?_, ?_, fun r => Aligned.elsewhere ?_⟩
    · simp [Connection.Quiet, Connection.link, start.awaiting c, start.silent c]
    · rw [start.silent c]
      trivial
    · simp [Connection.link, start.awaiting c, Link.scene]

/-- A step of the handler of `c`, before its effect on a scene. -/
theorem handled (migrates : Migrates c w) (orderly : Orderly c w a) (h : w.step P a = some w') :
    Contiguous w.inner (w'.conns c) := by
  have contiguous := migrates.contiguous
  refine World.conn_step (Q := Contiguous w.inner) h
    (fun _ => ⟨contiguous.quiet, contiguous.unbroken,
      fun r => (contiguous.aligned r).congr rfl rfl rfl⟩)
    ⟨trivial, contiguous.unbroken, fun r => Aligned.elsewhere nofun⟩ fun amb o taken stepped => ?_
  subst taken
  refine contiguous.move (fun r linked => migrates.sound r ?_) ?_
    (Connection.move_of_step stepped)
  · rcases Connection.link_scene linked with current | target
    · exact migrates.wf.current current
    · exact migrates.wf.target target
  · simpa only [Orderly, if_true] using orderly

/-- A number that a connection takes by leaving is not expected by `c`. -/
theorem free_of_leaves (orderly : Orderly c w a) (h : w.step P a = some w') {d : Nat}
    {r : SceneRef} (leaves : w.Leaves a d r) : ¬Expects r (w'.conns c) (w.inner.heap r) := by
  obtain ⟨amb, target, rfl, phase, current⟩ := leaves
  obtain ⟨o, stepped, conns, _⟩ := World.step_handler h
  by_cases own : d = c
  · subst own
    have crossed : (w'.conns d).link = .crossing target := by
      rw [conns, Function.update_self]
      simp only [Connection.step, phase, current, Option.map_some, Option.some.injEq] at stepped
      rw [← stepped]
      rfl
    unfold Expects
    rw [crossed]
    exact id
  · have same : w'.conns c = w.conns c := by
      rw [conns]
      exact Function.update_of_ne (Ne.symm own) ..
    rw [same]
    simp only [Orderly, if_neg own, LeavesAlone, phase] at orderly
    exact orderly r current

theorem step (migrates : Migrates c w) (serial : w.Serial) (serial' : w'.Serial)
    (orderly : Orderly c w a) (h : w.step P a = some w') : Migrates c w' := by
  have handled := migrates.handled orderly h
  refine ⟨migrates.wf.step h, World.soundAt_step_of_serial migrates.sound serial serial' h,
    handled.quiet, handled.unbroken, fun r => ?_⟩
  by_cases exists_ : r < w.inner.nextRef
  · have grows := (World.step_refs h).1
    rcases World.emission_cases exists_ (serial r exists_)
      (serial' r (Nat.lt_of_lt_of_le exists_ grows)) h with emission | ⟨⟨d, leaves⟩, scene, calls⟩
    · exact (handled.aligned r).scene_step emission
    · rw [scene, calls]
      exact (handled.aligned r).scene_change (free_of_leaves orderly h leaves)
  · exact Aligned.elsewhere fun linked => exists_ (migrates.wf.link_of_step h linked)

end Migrates

/-- In every run in which the connection leaves and joins scenes in turn, and no other
connection takes a number that it expects, its frames leave the tracker no gap. -/
theorem swaps_leave_no_gap {P : Platform Text} {start stop : World Text} {c : Nat}
    {schedule : List (Action Text)} (init : start.Init)
    (serial : Always (World.step P) World.Serial start schedule)
    (orderly : Along (World.step P) (Orderly c) start schedule)
    (reach : run (World.step P) start schedule = some stop) : NoGap (stop.conns c).outbox := by
  have invariant : Migrates c stop := by
    refine Along.invariant ?_ (Migrates.init init) (serial.along.and orderly) reach
    rintro w a w' migrates ⟨⟨before, after⟩, orderly⟩ h
    exact migrates.step before (after w' h) orderly h
  exact noGap_of_unbroken invariant.contiguous.unbroken

/-- A swap with everything sent, and an emission on either side of it. -/
private def orderlySwap : List (Action Value) :=
  connect 0 ++ emission 0 true ++ List.replicate 3 (operatorStep 0) ++ activation "stage" ++
    List.replicate 7 (operatorStep 0) ++ emission 1 true ++ List.replicate 3 (operatorStep 0)

/-- Two connections to one scene carry out the same swap. -/
private def sharedSwap : List (Action Value) :=
  connect 0 ++ connect 1 ++ activation "stage" ++ List.replicate 6 (operatorStep 0) ++
    List.replicate 6 (operatorStep 1)

theorem swaps_leave_no_gap_orderlySwap :
    ∃ stop, run (World.step valuePlatform) twoScenes orderlySwap = some stop ∧
      (positions (stop.conns 0).outbox).map ServerFrame.seq =
        [some 1, some 2, some 3, some 1, some 2] ∧
      NoGap (stop.conns 0).outbox := by
  have ends : (run (World.step valuePlatform) twoScenes orderlySwap).any (fun stop =>
      (positions (stop.conns 0).outbox).map ServerFrame.seq =
        [some 1, some 2, some 3, some 1, some 2]) = true := by
    decide
  obtain ⟨stop, reach, numbers⟩ := exists_run_of_any ends
  exact ⟨stop, reach, numbers, swaps_leave_no_gap twoScenes_init (by decide) (by decide) reach⟩

/-- The second connection's scene change skips the number that the first one took. -/
theorem not_noGap_of_sharedSwap :
    Always (World.step valuePlatform) World.Serial twoScenes sharedSwap ∧
      ∃ stop, run (World.step valuePlatform) twoScenes sharedSwap = some stop ∧
        feed (positions (stop.conns 1).outbox) = .error .gap :=
  ⟨by decide, exists_run_of_any (by decide)⟩

end Lumencast.EndToEnd
