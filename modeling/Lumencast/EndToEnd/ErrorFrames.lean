import Lumencast.Client.Manager
import Lumencast.Server.NoLoss

/-!
# Error frames between server and client

The handler numbers an error frame with the scene's counter without advancing
it, and the client judges every numbered frame by its number. An error frame is
therefore dropped when all emissions so far were sent, it takes the place of a
delta when exactly one emission is still queued, and it is a gap when more are.

`ErrorsHeard` and `DeltasHeard` compare the frames of a connection with what the
client makes of them. Each holds in every run in which the error frames are sent
at the right moment, and these moments exclude each other.
-/

namespace Lumencast.EndToEnd

open Foundation Protocol Server Client

variable {Text : Type}

/-- Frames that begin with a snapshot, before the last frame was sent. -/
theorem opening_concat {frames later : List ServerFrame} {f : ServerFrame} {S : Snapshot}
    (eq : frames ++ [f] = .snapshot S :: later) :
    (frames = [] ∧ f = .snapshot S ∧ later = []) ∨
      ∃ front, frames = .snapshot S :: front ∧ later = front ++ [f] := by
  cases frames with
  | nil =>
      cases eq
      exact .inl ⟨rfl, rfl, rfl⟩
  | cons g front =>
      cases eq
      exact .inr ⟨front, rfl, rfl⟩

/-! ## Errors -/

/-- Every error frame after the opening snapshot has reached the application, in order. -/
def ErrorsHeard (frames : List ServerFrame) : Prop :=
  ∀ S later, frames = .snapshot S :: later →
    (drive S later).events.filterMap Event.error? = later.filterMap errorOf

instance (frames : List ServerFrame) : Decidable (ErrorsHeard frames) :=
  match frames with
  | .snapshot S :: later =>
      decidable_of_iff ((drive S later).events.filterMap Event.error? = later.filterMap errorOf)
        ⟨by rintro heard _ _ ⟨⟩; exact heard, fun heard => heard S later rfl⟩
  | [] | .delta _ :: _ | .sceneChanged _ :: _ | .error _ :: _ | .pong _ :: _ =>
      isTrue (by rintro _ _ ⟨⟩)

theorem ErrorsHeard.concat {frames : List ServerFrame} (heard : ErrorsHeard frames)
    (f : ServerFrame) (inTurn : ∀ e, f = .error e →
      Unbroken frames ∧ e.seq = highestSeq frames + 1) : ErrorsHeard (frames ++ [f]) := by
  intro S later eq
  rcases opening_concat eq with ⟨_, _, rfl⟩ | ⟨front, rfl, rfl⟩
  · rfl
  · clear eq
    have before := heard S front rfl
    rw [drive_concat, List.filterMap_append]
    cases error : errorOf f with
    | none => rw [Session.receive_errors error, before]; simp [error]
    | some e =>
        obtain rfl : f = .error e := by cases f <;> simp_all [errorOf]
        obtain ⟨unbroken, number⟩ := inTurn e rfl
        obtain ⟨running, tracker⟩ := drive_of_unbroken unbroken
        have next : (ServerFrame.error e).seq = some ((drive S front).tracker.last + 1) := by
          rw [tracker]
          exact congrArg some number
        rw [Session.receive_next running next, List.filterMap_append, before]
        rfl

/-- The error frame to be sent is the next one by its number, and none was skipped
before it. -/
def ErrorInTurn (inner : ServerInner Text) (conn : Connection Text) : Prop :=
  match conn.phase with
  | .refusing .. =>
      Unbroken conn.outbox ∧ conn.errorSeq inner = highestSeq conn.outbox + 1
  | _ => True

instance (inner : ServerInner Text) (conn : Connection Text) :
    Decidable (ErrorInTurn inner conn) := by
  unfold ErrorInTurn
  split <;> infer_instance

/-- A connection whose errors have all been heard. -/
structure ErrorsReach (conn : Connection Text) : Prop where
  quiet : conn.Quiet
  heard : ErrorsHeard conn.outbox

/-- The answer with the ring does not begin with a snapshot. -/
theorem replayed_ne_snapshot {records : List ReplayRecord} {S : Snapshot}
    {later : List ServerFrame} :
    (records.map fun r => ServerFrame.delta r.frame) ≠ .snapshot S :: later := by
  intro eq
  obtain ⟨record, _, delta⟩ := List.mem_map.mp (eq ▸ List.mem_cons_self)
  cases delta

/-- A handler step, when the error it may send is in turn. -/
theorem ErrorsReach.move {inner : ServerInner Text} {c : Nat} {conn : Connection Text}
    {o : Outcome Text} (reach : ErrorsReach conn) (inTurn : ErrorInTurn inner conn)
    (h : Connection.Move inner c conn o) : ErrorsReach o.conn := by
  refine ⟨reach.quiet.move h, ?_⟩
  have heard := reach.heard
  cases h with
  | still _ outbox | close _ outbox | subscribe _ _ outbox | readSeq _ _ outbox
  | crossSeq _ _ outbox | land _ _ _ outbox => rw [outbox]; exact heard
  | pong _ _ f outbox | deliver _ _ _ outbox | leave _ _ _ _ outbox
  | snapshot _ _ _ outbox | crossSnapshot _ _ _ outbox =>
      rw [outbox]
      refine heard.concat _ fun e same => ?_
      cases same
  | deny before _ f outbox =>
      rw [outbox, reach.quiet.empty_of_detached before]
      rintro S later ⟨⟩
  | @refuse r reply stop before phase _ clock outbox =>
      rw [outbox]
      unfold ErrorInTurn at inTurn
      rw [phase] at inTurn
      refine heard.concat _ ?_
      rintro e ⟨⟩
      refine ⟨inTurn.1, ?_⟩
      rw [← inTurn.2, Connection.errorSeq, Connection.current_of_attached before]
      rfl
  | resume before _ _ _ outbox =>
      rw [outbox, reach.quiet.empty_of_opening before, List.nil_append]
      exact fun S later eq => absurd eq replayed_ne_snapshot

/-- In every run in which each error frame of a connection is sent with the number
after the highest one sent on it, and after no skipped number, every error frame
after the snapshot reaches the application. -/
theorem error_frames_reach_client {P : Platform Text} {start stop : World Text} {c : Nat}
    {schedule : List (Action Text)} (init : start.Init)
    (inTurn : Along (World.step P) (World.AtHandler c ErrorInTurn) start schedule)
    (reach : run (World.step P) start schedule = some stop) :
    ErrorsHeard (stop.conns c).outbox := by
  have first : ErrorsReach (start.conns c) := by
    refine ⟨by simp [Connection.Quiet, Connection.link, init.awaiting c, init.silent c], ?_⟩
    rw [init.silent c]
    rintro S later ⟨⟩
  refine (Along.invariant (I := fun w => ErrorsReach (w.conns c)) ?_ first inTurn reach).heard
  intro w a w' reach inTurn h
  refine World.conn_step (Q := ErrorsReach) h (fun _ => ⟨reach.quiet, reach.heard⟩)
    ⟨trivial, reach.heard⟩ fun amb o taken stepped => ?_
  subst taken
  exact reach.move (inTurn rfl) (Connection.move_of_step stepped)

/-- A frame that does not decode. -/
private def undecodable (c : Nat) : List (Action Value) :=
  .receive c (.text .null) :: List.replicate 2 (operatorStep c)

theorem error_frames_reach_client_oneQueued :
    ∃ stop, run (World.step valuePlatform) twoScenes
        (connect 0 ++ emission 0 true ++ undecodable 0) = some stop ∧
      ((stop.conns 0).outbox.filterMap errorOf).length = 1 ∧
      ErrorsHeard (stop.conns 0).outbox := by
  have ends : (run (World.step valuePlatform) twoScenes
      (connect 0 ++ emission 0 true ++ undecodable 0)).any (fun stop =>
        ((stop.conns 0).outbox.filterMap errorOf).length = 1) = true := by
    decide
  obtain ⟨stop, reach, sent⟩ := exists_run_of_any ends
  exact ⟨stop, reach, sent, error_frames_reach_client twoScenes_init (by decide) reach⟩

/-- The error frame rides the number of the snapshot and is dropped as a duplicate. -/
theorem not_errorsHeard_of_quietScene :
    ∃ stop, run (World.step valuePlatform) twoScenes (connect 0 ++ undecodable 0) = some stop ∧
      ¬ErrorsHeard (stop.conns 0).outbox :=
  exists_run_of_any (by decide)

/-! ## Deltas -/

/-- The deltas above the number of the snapshot. -/
def above (S : Snapshot) (later : List ServerFrame) : List Delta :=
  (deltasOf later).filter fun d => S.seq < d.seq

/-- The client has not reconnected, and it has reported every delta above the number
of the opening snapshot, once and in order. -/
def DeltasHeard (S : Snapshot) (later : List ServerFrame) : Prop :=
  (drive S later).reconnecting = false ∧
    (drive S later).events.filterMap Event.delta? = above S later

instance (S : Snapshot) (later : List ServerFrame) : Decidable (DeltasHeard S later) :=
  inferInstanceAs (Decidable (_ ∧ _))

/-- The client's tracker stands at the last delta above the number of the snapshot. -/
structure InStep (S : Snapshot) (later : List ServerFrame) : Prop where
  heard : DeltasHeard S later
  positive : 1 ≤ S.seq
  tracker : (drive S later).tracker.last = S.seq + (above S later).length
  highest : highestSeq (.snapshot S :: later) = S.seq + (above S later).length

theorem above_concat (S : Snapshot) (later : List ServerFrame) (f : ServerFrame) :
    above S (later ++ [f]) = above S later ++ above S [f] := by
  rw [above, deltasOf_append, List.filter_append]
  rfl

namespace InStep

variable {S : Snapshot} {later : List ServerFrame}

theorem opening (positive : 1 ≤ S.seq) : InStep S [] := by
  refine ⟨⟨rfl, rfl⟩, positive, ?_, ?_⟩
  · rw [drive, List.foldl_nil, open_tracker positive]
    rfl
  · simp [highestSeq, highestAfter, ServerFrame.seq, above]

/-- A numbered frame that the client drops. -/
theorem dropped (inStep : InStep S later) {f : ServerFrame} {seq : Nat}
    (numbered : f.seq = some seq) (old : seq ≤ S.seq + (above S later).length)
    (uncounted : above S [f] = []) : InStep S (later ++ [f]) := by
  obtain ⟨⟨running, deltas⟩, positive, tracker, highest⟩ := inStep
  have same : drive S (later ++ [f]) = drive S later := by
    rw [drive_concat]
    exact Session.receive_duplicate running numbered (by omega) (by omega)
  have kept : above S (later ++ [f]) = above S later := by
    rw [above_concat, uncounted, List.append_nil]
  refine ⟨⟨same ▸ running, by rw [same, kept, deltas]⟩, positive, by rw [same, kept, tracker], ?_⟩
  rw [← List.cons_append, highestSeq_concat, kept, highest]
  cases f <;> cases numbered <;> simp [highestAfter, ServerFrame.seq] <;> omega

theorem pong (inStep : InStep S later) (f : Pong) : InStep S (later ++ [.pong f]) := by
  obtain ⟨⟨running, deltas⟩, positive, tracker, highest⟩ := inStep
  have same : drive S (later ++ [.pong f]) = drive S later := by
    rw [drive_concat]
    exact Session.receive_unnumbered rfl
  have kept : above S (later ++ [.pong f]) = above S later := by
    rw [above_concat]
    exact List.append_nil _
  refine ⟨⟨same ▸ running, by rw [same, kept, deltas]⟩, positive, by rw [same, kept, tracker], ?_⟩
  rw [← List.cons_append, highestSeq_concat, kept, highest]
  simp [highestAfter, ServerFrame.seq]

/-- A delta that keeps the deltas sent consecutive. -/
theorem delta (inStep : InStep S later) {d : Delta}
    (consecutive : Consecutive S (later ++ [.delta d])) : InStep S (later ++ [.delta d]) := by
  by_cases old : d.seq ≤ S.seq
  · exact inStep.dropped rfl (Nat.le_add_right_of_le old) (by simp [above, deltasOf, deltaOf, old])
  · obtain ⟨⟨running, deltas⟩, positive, tracker, highest⟩ := inStep
    have more : above S (later ++ [.delta d]) = above S later ++ [d] := by
      rw [above_concat]
      simp [above, deltasOf, deltaOf, Nat.not_le.mp old]
    have next : d.seq = S.seq + (above S later).length + 1 := by
      have numbers : (above S (later ++ [.delta d])).map (·.seq) =
          numbersAbove S.seq (S.seq + (above S (later ++ [.delta d])).length) := consecutive
      rw [more, List.map_append, List.length_append, List.length_singleton, ← Nat.add_assoc,
        numbersAbove_succ (Nat.le_add_right ..)] at numbers
      simpa using (List.append_inj' numbers rfl).2
    have accepted := @Session.receive_next _ (.delta d) running (by
      rw [tracker, ← next]
      rfl)
    rw [← drive_concat] at accepted
    refine ⟨⟨by rw [accepted]; exact running, ?_⟩, positive, ?_, ?_⟩
    · rw [accepted, List.filterMap_append, deltas, more]
      rfl
    · rw [accepted, more, List.length_append, ← Nat.add_assoc, ← tracker]
      rfl
    · rw [← List.cons_append, highestSeq_concat, highest, more, List.length_append]
      simp [highestAfter, ServerFrame.seq]
      omega

/-- The last error frame of a connection may take the place of a delta. -/
theorem heard_of_closing (inStep : InStep S later) {e : ErrorFrame}
    (near : e.seq ≤ S.seq + (above S later).length + 1) :
    DeltasHeard S (later ++ [.error e]) := by
  by_cases old : e.seq ≤ S.seq + (above S later).length
  · exact (inStep.dropped (f := .error e) rfl old rfl).heard
  · obtain ⟨⟨running, deltas⟩, positive, tracker, highest⟩ := inStep
    have accepted := @Session.receive_next _ (.error e) running (by
      rw [tracker]
      exact congrArg some (by omega))
    rw [DeltasHeard, drive_concat, accepted, List.filterMap_append, deltas, above_concat]
    exact ⟨running, rfl⟩

end InStep

/-- The opening snapshot is the only one. -/
def OpensOnce (frames : List ServerFrame) : Prop :=
  ∀ S later, frames = .snapshot S :: later → latestSnapshot frames = some (S, later)

theorem OpensOnce.concat {frames : List ServerFrame} (once : OpensOnce frames) {f : ServerFrame}
    (other : snapshotOf f = none) : OpensOnce (frames ++ [f]) := by
  intro S later eq
  rcases opening_concat eq with ⟨_, rfl, _⟩ | ⟨front, rfl, rfl⟩
  · cases other
  · rw [latestSnapshot_concat other, once S front rfl]
    rfl

/-- The error frame to be sent has a number that was sent before, or it is the last
frame and has the number after the highest one. -/
def ErrorBehind (inner : ServerInner Text) (conn : Connection Text) : Prop :=
  match conn.phase with
  | .refusing _ stop => conn.errorSeq inner ≤ highestSeq conn.outbox + stop.toNat
  | _ => True

instance (inner : ServerInner Text) (conn : Connection Text) :
    Decidable (ErrorBehind inner conn) := by
  unfold ErrorBehind
  split <;> infer_instance

/-- What the client has made of a connection to the scene `r`. -/
structure Hears (r : SceneRef) (conn : Connection Text) : Prop where
  once : OpensOnce conn.outbox
  heard : conn.current = some r → ∀ S later, conn.outbox = .snapshot S :: later →
    DeltasHeard S later
  inStep : conn.link = .attached r → ∀ S later, conn.outbox = .snapshot S :: later →
    InStep S later

namespace Hears

variable {r : SceneRef} {conn conn' : Connection Text}

theorem silent (empty : conn.outbox = []) : Hears r conn := by
  refine ⟨?_, fun _ => ?_, fun _ => ?_⟩ <;> rw [empty] <;> rintro S later ⟨⟩

/-- A connection in the main loop. -/
theorem attached {q : SceneRef} (link : conn.link = .attached q) (once : OpensOnce conn.outbox)
    (inStep : q = r → ∀ S later, conn.outbox = .snapshot S :: later → InStep S later) :
    Hears r conn := by
  refine ⟨once, fun current S later sent => ?_, fun link' => ?_⟩
  · rw [Connection.current_of_attached link] at current
    exact (inStep (Option.some.inj current) S later sent).heard
  · rw [link] at link'
    exact inStep (Link.attached.inj link')

/-- A connection that ends. -/
theorem closed (hears : Hears r conn) (link : conn'.link = .closed)
    (current : conn'.current = conn.current) (outbox : conn'.outbox = conn.outbox) :
    Hears r conn' := by
  refine ⟨outbox ▸ hears.once, ?_, fun link' => by simp [link] at link'⟩
  rw [current, outbox]
  exact hears.heard

/-- A frame sent in the main loop. -/
theorem sent {q : SceneRef} (hears : Hears r conn) (before : conn.link = .attached q)
    (link : conn'.link = .attached q) {f : ServerFrame} (outbox : conn'.outbox = conn.outbox ++ [f])
    (other : snapshotOf f = none)
    (keeps : q = r → ∀ S later, conn.outbox = .snapshot S :: later → InStep S later →
      InStep S (later ++ [f])) : Hears r conn' := by
  refine attached link (outbox ▸ hears.once.concat other) ?_
  rintro rfl S later eq
  rw [outbox] at eq
  rcases opening_concat eq with ⟨_, rfl, _⟩ | ⟨front, opened, rfl⟩
  · cases other
  · exact keeps rfl S front opened (hears.inStep before S front opened)

/-- A handler step, when the error frame it may send is not ahead of a queued delta. -/
theorem move {inner : ServerInner Text} {c : Nat} {o : Outcome Text} (hears : Hears r conn)
    (running : conn.link ≠ .closed) (positive : ∀ seq, conn.link = .reading r seq → 1 ≤ seq)
    (quiet : conn.Quiet) (uncrossed : conn.Uncrossed) (uncrossed' : o.conn.Uncrossed)
    (records : o.conn.Records r) (behind : ErrorBehind inner conn)
    (h : Connection.Move inner c conn o) : Hears r o.conn := by
  have quiet' := quiet.move h
  unfold Connection.Uncrossed at uncrossed uncrossed'
  cases h with
  | still link outbox =>
      cases before : conn.link with
      | detached => exact silent (quiet'.empty_of_detached (link.trans before))
      | opening q => exact silent (quiet'.empty_of_opening (link.trans before))
      | reading q seq => exact silent (quiet'.empty_of_reading (link.trans before))
      | attached q =>
          refine attached (link.trans before) (outbox ▸ hears.once) ?_
          rintro rfl
          rw [outbox]
          exact hears.inStep before
      | crossing q | crossingAt q seq | landing q => simp [before] at uncrossed
      | closed => exact absurd before running
  | close link outbox effect current => exact hears.closed link current outbox
  | deny before link f outbox =>
      rw [quiet.empty_of_detached before, List.nil_append] at outbox
      refine ⟨?_, fun _ => ?_, fun link' => by simp [link] at link'⟩ <;> rw [outbox] <;>
        rintro S later ⟨⟩
  | subscribe _ link => exact silent (quiet'.empty_of_opening link)
  | readSeq _ link => exact silent (quiet'.empty_of_reading link)
  | @snapshot q seq before link clock outbox =>
      rw [quiet.empty_of_reading before, List.nil_append] at outbox
      refine attached link ?_ ?_ <;> rw [outbox]
      · rintro S later ⟨⟩
        rfl
      · rintro rfl S later ⟨⟩
        exact InStep.opening (positive seq before)
  | pong before link f outbox =>
      exact hears.sent before link outbox rfl fun _ S later _ inStep => inStep.pong f
  | deliver before link received outbox =>
      refine hears.sent before link outbox rfl ?_
      rintro rfl S later sent inStep
      refine inStep.delta (records (Connection.current_of_attached link) S _ ?_)
      rw [outbox]
      exact hears.once.concat rfl S _ (by rw [sent]; rfl)
  | @refuse q reply stop before phase link clock outbox deltas effect current =>
      unfold ErrorBehind at behind
      rw [phase] at behind
      simp only [Connection.errorSeq, Connection.current_of_attached before, Option.elim_some]
        at behind
      cases stop with
      | false =>
          refine hears.sent before link outbox rfl ?_
          rintro rfl S later sent inStep
          rw [sent, inStep.highest] at behind
          exact inStep.dropped rfl behind rfl
      | true =>
          refine ⟨outbox ▸ hears.once.concat rfl, ?_, fun link' => by simp [link] at link'⟩
          rw [current, Connection.current_of_attached before, outbox]
          rintro ⟨⟩ S later eq
          rcases opening_concat eq with ⟨_, error, _⟩ | ⟨front, opened, rfl⟩
          · cases error
          · have inStep := hears.inStep before S front opened
            rw [opened, inStep.highest] at behind
            exact inStep.heard_of_closing behind
  | resume before phase link covered outbox =>
      rw [quiet.empty_of_opening before, List.nil_append] at outbox
      exact attached link (fun S later eq => absurd (outbox.symm.trans eq) replayed_ne_snapshot)
        (fun _ S later eq => absurd (outbox.symm.trans eq) replayed_ne_snapshot)
  | leave _ _ link => simp [link] at uncrossed'
  | crossSeq before => simp [before] at uncrossed
  | crossSnapshot before => simp [before] at uncrossed
  | land before => simp [before] at uncrossed

theorem step {P : Platform Text} {c : Nat} {w w' : World Text} {a : Action Text}
    (hears : Hears r (w.conns c)) (stays : Stays r c w) (stays' : Stays r c w')
    (behind : w.AtHandler c ErrorBehind a) (h : w.step P a = some w') : Hears r (w'.conns c) := by
  rcases World.conn_cases h c with same | ⟨m, _, same⟩ | ⟨_, same⟩ |
    ⟨amb, o, rfl, stepped, same, _⟩
  · rw [same]
    exact hears
  · rw [same]
    exact ⟨hears.once, hears.heard, hears.inStep⟩
  · rw [same]
    exact hears.closed rfl rfl rfl
  · have uncrossed' := stays'.uncrossed
    have records := stays'.records
    rw [same] at uncrossed' records ⊢
    have running : (w.conns c).link ≠ .closed := by
      intro ended
      rw [Connection.step, Connection.phase_of_closed ended] at stepped
      cases stepped
    have positive : ∀ seq, (w.conns c).link = .reading r seq → 1 ≤ seq := by
      intro seq reading
      have follows := stays.watches.follows
      unfold Follows at follows
      rw [reading] at follows
      obtain ⟨_, _, _, reached, _⟩ := follows rfl
      exact reached.positive
    exact hears.move running positive stays.watches.quiet stays.uncrossed uncrossed' records
      (behind rfl) (Connection.move_of_step stepped)

end Hears

/-- In every run without scene swaps in which no error frame of a connection is sent
ahead of a queued delta, the client does not reconnect and reports exactly the deltas
above the number of the snapshot: these are consecutive, and once the queue is drained
they are all that the scene has broadcast. -/
theorem deltas_reach_client {P : Platform Text} {start stop : World Text} {r : SceneRef} {c : Nat}
    {schedule : List (Action Text)} {S : Snapshot} {later : List ServerFrame} (init : start.Init)
    (serial : Always (World.step P) (World.SerialAt r) start schedule)
    (kept : Along (World.step P) (fun w a => w.leaving a = false) start schedule)
    (behind : Along (World.step P) (World.AtHandler c ErrorBehind) start schedule)
    (reach : run (World.step P) start schedule = some stop)
    (current : (stop.conns c).current = some r)
    (sent : (stop.conns c).outbox = .snapshot S :: later) :
    let reported := (drive S later).events.filterMap Event.delta?
    DeltasHeard S later ∧
      reported.map (·.seq) = numbersAbove S.seq (S.seq + reported.length) ∧
      ((stop.conns c).link = .attached r →
        (stop.inner.heap r).scene.tx.recv (stop.conns c).deltas = .empty →
          reported = ((stop.inner.heap r).scene.tx.sent.filter fun p => S.seq < p.seq).map
            DeltaPayload.frame) := by
  have invariant : Stays r c stop ∧ Hears r (stop.conns c) := by
    refine Along.invariant (I := fun w => Stays r c w ∧ Hears r (w.conns c)) ?_
      ⟨Stays.init init, Hears.silent (init.silent c)⟩ ((serial.along.and kept).and behind) reach
    rintro w a w' ⟨stays, hears⟩ ⟨⟨⟨before, after⟩, kept⟩, behind⟩ h
    have stays' := stays.step before (after w' h) kept h
    exact ⟨stays', hears.step stays stays' behind h⟩
  obtain ⟨stays, hears⟩ := invariant
  have latest : latestSnapshot (stop.conns c).outbox = some (S, later) := hears.once S later sent
  have heard := hears.heard current S later sent
  have consecutive := stays.records current S later latest
  intro reported
  have eq : reported = above S later := heard.2
  refine ⟨heard, eq ▸ consecutive, fun attached drained => ?_⟩
  obtain ⟨position, synced⟩ := stays.watches.synced attached latest
  rw [eq, above, synced.delivered_above,
    List.take_of_length_le (Broadcast.recv_eq_empty.mp drained).2]

/-- An operator's input outside its namespace, and the error frame for it. -/
private def rejectedInput (c : Nat) : List (Action Value) :=
  .receive c (.text (.object [("patches", .array [.object [("path", .string "lamp"),
    ("value", .bool true)]]), ("type", .string "input"), ("v", .number (.posInt 1))])) ::
    List.replicate 2 (operatorStep c)

/-- Poll the socket, the events and the deltas. -/
private def deliver (c : Nat) : List (Action Value) := List.replicate 3 (operatorStep c)

/-- The input is rejected while no delta is queued. -/
private def drainedRejection : List (Action Value) :=
  connect 0 ++ emission 0 true ++ deliver 0 ++ rejectedInput 0 ++ emission 0 false ++ deliver 0

/-- The input is rejected while one delta is queued. -/
private def queuedRejection : List (Action Value) :=
  connect 0 ++ emission 0 true ++ rejectedInput 0 ++ deliver 0

/-- The first frame of a connection, when it is a snapshot, and the others. -/
private def opening (w : World Value) : Option (Snapshot × List ServerFrame) :=
  match (w.conns 0).outbox with
  | .snapshot S :: later => some (S, later)
  | _ => none

private theorem outbox_of_opening {w : World Value} {S : Snapshot} {later : List ServerFrame}
    (h : opening w = some (S, later)) : (w.conns 0).outbox = .snapshot S :: later := by
  unfold opening at h
  split at h
  · next outbox => cases h; exact outbox
  · cases h

theorem deltas_reach_client_drainedRejection :
    ∃ stop S later, run (World.step valuePlatform) twoScenes drainedRejection = some stop ∧
      (stop.conns 0).outbox = .snapshot S :: later ∧
      (later.filterMap errorOf).length = 1 ∧
      ((drive S later).events.filterMap Event.delta?).map (·.seq) = [2, 3] ∧
      DeltasHeard S later := by
  have ends : (run (World.step valuePlatform) twoScenes drainedRejection).any (fun stop =>
      (stop.conns 0).current = some 0 ∧ ∃ x ∈ opening stop,
        (x.2.filterMap errorOf).length = 1 ∧
          ((drive x.1 x.2).events.filterMap Event.delta?).map (·.seq) = [2, 3]) = true := by
    decide
  obtain ⟨stop, reach, current, ⟨S, later⟩, opened, errors, numbers⟩ := exists_run_of_any ends
  have sent := outbox_of_opening opened
  exact ⟨stop, S, later, reach, sent, errors, numbers,
    (deltas_reach_client twoScenes_init (by decide) (by decide) (by decide) reach current sent).1⟩

/-- The error frame takes the number of the queued delta, which is then dropped. -/
theorem not_deltasHeard_of_queuedRejection :
    Always (World.step valuePlatform) (World.SerialAt 0) twoScenes queuedRejection ∧
      Along (World.step valuePlatform) (fun w a => w.leaving a = false) twoScenes
        queuedRejection ∧
      ∃ stop S later, run (World.step valuePlatform) twoScenes queuedRejection = some stop ∧
        (stop.conns 0).current = some 0 ∧ (stop.conns 0).outbox = .snapshot S :: later ∧
        (above S later).map (·.seq) = [2] ∧ ¬DeltasHeard S later := by
  have ends : (run (World.step valuePlatform) twoScenes queuedRejection).any (fun stop =>
      (stop.conns 0).current = some 0 ∧ ∃ x ∈ opening stop,
        (above x.1 x.2).map (·.seq) = [2] ∧ ¬DeltasHeard x.1 x.2) = true := by
    decide
  obtain ⟨stop, reach, current, ⟨S, later⟩, opened, numbers, unheard⟩ := exists_run_of_any ends
  exact ⟨by decide, by decide, stop, S, later, reach, current, outbox_of_opening opened, numbers,
    unheard⟩

end Lumencast.EndToEnd
