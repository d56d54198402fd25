import Lumencast.Protocol.RoundTrip
import Lumencast.Server.NoLoss

/-!
# Rejected scenes

The handshake looks at the rejection of a scene before it subscribes to it, and
answers with the rejection instead of a snapshot. The swap branch does not look. A
connection that has not accepted a rejected scene therefore stays away from it as
long as no swap leads it there, and sends none of its state.
-/

namespace Lumencast.Server

open Foundation Protocol

variable {Text : Type}

/-- Snapshots and deltas. -/
def carriesState : ServerFrame → Bool
  | .snapshot _ | .delta _ => true
  | .sceneChanged _ | .error _ | .pong _ => false

/-- A snapshot of the scene, or a delta that it has published. -/
def Scene.StateFrame (s : Scene Text) (f : ServerFrame) : Prop :=
  (∃ seq clock, f = Connection.snapshotFrame s seq clock) ∨
    (∃ p ∈ s.tx.sent, f = .delta p.frame) ∨ ∃ r ∈ s.replay.records, f = .delta r.frame

namespace Connection

/-- The scene that the handler has decided to send the state of: past the check of the
handshake, or past the lookup of a swap. -/
def accepted (conn : Connection Text) : Option SceneRef :=
  match conn.phase with
  | .awaiting | .resolving _ | .lookingUp .. | .checking _ | .denying _ | .closed => none
  | .subscribing _ | .subscribingEvents _ | .comparing _ | .replaying _ | .readingSeq
  | .readingState _ | .live | .pollingEvents | .pollingDeltas | .refusing .. | .migrating _ =>
      conn.current
  | .advancing r | .swapReadingSeq r | .swapReadingState r _ | .resubscribing r => some r

/-- A message of the main loop leaves the accepted scene, or ends the connection. -/
theorem accepted_onMessage {T : TextLayer Text} {c : Nat} {r : SceneRef} {scene : Scene Text}
    {conn : Connection Text} {amb : Ambient} (m : Message Text) (phase : conn.phase = .live) :
    (conn.onMessage T c r scene amb m).conn.accepted = none ∨
      (conn.onMessage T c r scene amb m).conn.accepted = conn.accepted := by
  cases m with
  | text t =>
      rw [onMessage]
      rcases handleTextFrame T scene conn.identity conn.rate amb.clock.instant t with ⟨v, rate⟩
      cases v <;> simp [send, goto, phase, accepted]
  | _ => simp [onMessage, Connection.refuse, goto, phase, accepted]

/-- A scene is accepted by the check of the handshake or by the lookup of a swap. -/
theorem accepted_of_step {T : TextLayer Text} {inner : ServerInner Text} {c : Nat}
    {conn : Connection Text} {amb : Ambient} {o : Outcome Text}
    (h : conn.step T inner c amb = some o) :
    o.conn.accepted = none ∨ o.conn.accepted = conn.accepted ∨
      (∃ sub r, conn.phase = .checking sub ∧ conn.current = some r ∧
        (inner.heap r).scene.rejection = none ∧ o.conn.accepted = some r) ∨
      ∃ id r, conn.phase = .migrating id ∧ inner.scene id = some r ∧ o.conn.accepted = some r := by
  cases transition_of_step h with
  | authenticate | turnAway | hangUp | resolve | notResolved | lookUp | notFound | reject | deny =>
      exact .inl rfl
  | accept phase current sound =>
      exact .inr (.inr (.inl ⟨_, _, phase, current, sound, current⟩))
  | @message r m inbox phase _ _ =>
      exact (@accepted_onMessage _ T c r (inner.heap r).scene { conn with inbox } amb m
        phase).imp_right .inl
  | @refuse reply stop r phase _ =>
      cases stop with
      | true => exact .inl rfl
      | false => exact .inr (.inl (by simp [accepted, phase, goto, send]))
  | migrate phase found => exact .inr (.inr (.inr ⟨_, _, phase, found, rfl⟩))
  | subscribe phase | compare phase | startAfresh phase | resume phase | ahead phase
  | replay phase | notCovered phase | readSeq phase | readState phase | pollEvents phase
  | swap phase | loseEvents phase | pollDeltas phase | deliver phase | loseDeltas phase
  | pollSocket phase | stay phase | leave phase | crossSeq phase | crossState phase
  | land phase =>
      exact .inr (.inl (by simp [accepted, phase, goto, send, Connection.refuse]))

/-- Except when it is about to leave, a connection listens to the scene it accepted. -/
theorem accepted_of_link {conn : Connection Text} {r : SceneRef}
    (linked : conn.link.scene = some r) (stays : ∀ target, conn.phase ≠ .advancing target) :
    conn.accepted = some r := by
  unfold link at linked
  cases current : conn.current <;> cases phase : conn.phase <;>
    simp_all [Link.scene, accepted]

/-- The state that a handler step sends is that of the accepted scene. -/
theorem sent_of_step {T : TextLayer Text} {inner : ServerInner Text} {c : Nat}
    {conn : Connection Text} {amb : Ambient} {o : Outcome Text}
    (h : conn.step T inner c amb = some o) :
    ∃ frames, o.conn.outbox = conn.outbox ++ frames ∧ ∀ f ∈ frames, carriesState f = true →
      ∃ r, conn.accepted = some r ∧ (inner.heap r).scene.StateFrame f := by
  by_cases leaving : ∃ target, conn.phase = .advancing target
  · obtain ⟨target, phase⟩ := leaving
    simp only [step, phase, Option.map_eq_some_iff] at h
    obtain ⟨old, _, rfl⟩ := h
    exact ⟨_, rfl, by simp [sceneChangedFrame, carriesState]⟩
  · have accepted {r : SceneRef} (linked : conn.link.scene = some r) : conn.accepted = some r :=
      accepted_of_link linked fun target phase => leaving ⟨target, phase⟩
    cases move_of_step h with
    | still _ outbox | close _ outbox | subscribe _ _ outbox | readSeq _ _ outbox
    | crossSeq _ _ outbox | land _ _ _ outbox => exact ⟨[], by simp [outbox], by simp⟩
    | pong _ _ f outbox | deny _ _ f outbox => exact ⟨_, outbox, by simp [carriesState]⟩
    | refuse _ _ _ clock outbox =>
        exact ⟨_, outbox, by simp [ErrorReply.frame, carriesState]⟩
    | leave _ phase => exact absurd ⟨_, phase⟩ leaving
    | @resume r since before _ _ covered outbox =>
        refine ⟨_, outbox, fun f member _ => ⟨r, accepted (by rw [before]; rfl), .inr (.inr ?_)⟩⟩
        obtain ⟨record, sent, rfl⟩ := List.mem_map.mp member
        have retained : record ∈ (inner.heap r).scene.replay.records := by
          rw [Scene.replaySince, ReplayBuffer.since_records_of_covered covered] at sent
          exact List.mem_of_mem_filter sent
        exact ⟨record, retained, rfl⟩
    | @snapshot r seq before _ clock outbox =>
        refine ⟨_, outbox, fun f member _ => ⟨r, accepted (by rw [before]; rfl), .inl ?_⟩⟩
        exact ⟨seq, clock, List.mem_singleton.mp member⟩
    | @crossSnapshot r seq before _ clock outbox =>
        refine ⟨_, outbox, fun f member _ => ⟨r, accepted (by rw [before]; rfl), .inl ?_⟩⟩
        exact ⟨seq, clock, List.mem_singleton.mp member⟩
    | @deliver r p next before _ received outbox =>
        refine ⟨_, outbox, fun f member _ =>
          ⟨r, accepted (by rw [before]; rfl), .inr (.inl ⟨p, ?_, List.mem_singleton.mp member⟩)⟩⟩
        exact List.mem_of_getElem? (Broadcast.recv_eq_message.mp received).2.1

/-- The swap branch looks up no rejected scene. -/
def SwapsToSound (inner : ServerInner Text) (conn : Connection Text) : Prop :=
  match conn.phase with
  | .migrating id => ∀ r ∈ inner.scene id, (inner.heap r).scene.rejection = none
  | _ => True

instance (inner : ServerInner Text) (conn : Connection Text) :
    Decidable (SwapsToSound inner conn) := by
  unfold SwapsToSound
  exact match conn.phase with
    | .migrating id =>
        inferInstanceAs (Decidable (∀ r ∈ inner.scene id, (inner.heap r).scene.rejection = none))
    | .awaiting | .resolving _ | .lookingUp .. | .checking _ | .subscribing _
    | .subscribingEvents _ | .comparing _ | .replaying _ | .readingSeq | .readingState _
    | .denying _ | .live | .pollingEvents | .pollingDeltas | .refusing .. | .advancing _
    | .swapReadingSeq _ | .swapReadingState .. | .resubscribing _ | .closed => isTrue trivial

end Connection

/-- The error that a rejected scene answers a handshake with. -/
def SceneRejection.reply (rejection : SceneRejection) : ErrorReply where
  code := rejection.code
  message := rejection.message
  recoverable := false

/-- A rejection is never withdrawn. -/
theorem SceneCell.rejected_step {cell cell' : SceneCell Text} {a : SceneAction}
    (rejected : cell.scene.rejection.isSome) (h : cell.step a = some cell') :
    cell'.scene.rejection.isSome := by
  cases a with
  | emit caller pairs cause =>
      obtain ⟨_, rfl | ⟨patches, _, rfl⟩⟩ := step_emit h <;> exact rejected
  | progress caller =>
      obtain ⟨⟨patches, cause, stage⟩, _, rfl⟩ := step_progress h
      cases stage <;> exact rejected
  | change | withOperatorInputs =>
      cases h
      exact rejected
  | reject =>
      cases h
      rfl

namespace World

variable {P : Platform Text} {w w' : World Text} {a : Action Text}

/-- The scene `r` is rejected, and the connection `c` has not accepted it. -/
structure Withheld (r : SceneRef) (c : Nat) (w : World Text) : Prop where
  exists_ : r < w.inner.nextRef
  rejected : (w.inner.heap r).scene.rejection.isSome
  outside : (w.conns c).accepted ≠ some r

theorem Withheld.step {r : SceneRef} {c : Nat} (withheld : Withheld r c w)
    (sound : w.AtHandler c Connection.SwapsToSound a) (h : w.step P a = some w') :
    Withheld r c w' := by
  obtain ⟨exists_, rejected, outside⟩ := withheld
  refine ⟨Nat.lt_of_lt_of_le exists_ (step_refs h).1, ?_, ?_⟩
  · rcases scene_cases h r with same | ⟨rfl, _⟩ | ⟨sa, stepped, _⟩
    · rw [same]
      exact rejected
    · exact absurd exists_ (Nat.lt_irrefl _)
    · exact SceneCell.rejected_step rejected stepped
  · refine conn_step (Q := fun conn => conn.accepted ≠ some r) h (fun _ => outside) nofun
      fun amb o taken stepped accepted => ?_
    subst taken
    rcases Connection.accepted_of_step stepped with none_ | kept | ⟨sub, q, _, _, sound, new⟩ |
      ⟨id, q, phase, found, new⟩
    · rw [none_] at accepted
      cases accepted
    · exact outside (kept ▸ accepted)
    · obtain rfl := Option.some.inj (new.symm.trans accepted)
      rw [sound] at rejected
      cases rejected
    · obtain rfl := Option.some.inj (new.symm.trans accepted)
      have lookup : Connection.SwapsToSound w.inner (w.conns c) := sound rfl
      simp only [Connection.SwapsToSound, phase] at lookup
      rw [lookup q found] at rejected
      cases rejected

end World

/-- The check of the handshake answers with the rejection of the scene, and the next step
sends it and closes the connection. -/
theorem denied_of_rejected {T : TextLayer Text} {inner : ServerInner Text} {c : Nat}
    {conn : Connection Text} {amb : Ambient} {o : Outcome Text} {sub : Subscribe} {r : SceneRef}
    {rejection : SceneRejection} (phase : conn.phase = .checking sub)
    (current : conn.current = some r) (rejected : (inner.heap r).scene.rejection = some rejection)
    (h : conn.step T inner c amb = some o) :
    o.conn.outbox = conn.outbox ∧ ∀ inner' amb', ∃ seq,
      (o.conn.step T inner' c amb').map (·.conn) =
        some ((o.conn.send (rejection.reply.frame seq amb'.clock)).goto .closed) := by
  simp only [Connection.step, phase, current, Option.map_some, rejected, Option.some.injEq] at h
  subst h
  exact ⟨rfl, fun inner' amb' => ⟨_, rfl⟩⟩

/-- In every run from a state in which the scene `r` is rejected and the connection has
not accepted it, and in which no swap of the connection leads to a rejected scene: no
step sends state of `r`, and a handshake that has resolved `r` sends its rejection. -/
theorem rejected_scene_ships_nothing {P : Platform Text} {start stop : World Text} {r : SceneRef}
    {c : Nat} {schedule : List (Action Text)} (exists_ : r < start.inner.nextRef)
    (rejected : (start.inner.heap r).scene.rejection.isSome)
    (outside : (start.conns c).accepted ≠ some r)
    (sound : Along (World.step P) (World.AtHandler c Connection.SwapsToSound) start schedule)
    (reach : run (World.step P) start schedule = some stop) {amb : Ambient} {o : Outcome Text}
    (next : (stop.conns c).step P.toTextLayer stop.inner c amb = some o) :
    (∃ frames, o.conn.outbox = (stop.conns c).outbox ++ frames ∧
        ∀ f ∈ frames, carriesState f = true → ∃ q, q ≠ r ∧
          (stop.conns c).accepted = some q ∧ (stop.inner.heap q).scene.StateFrame f) ∧
      ∀ sub, (stop.conns c).phase = .checking sub → (stop.conns c).current = some r →
        ∃ rejection, (stop.inner.heap r).scene.rejection = some rejection ∧
          o.conn.outbox = (stop.conns c).outbox ∧ ∀ inner amb', ∃ seq,
            (o.conn.step P.toTextLayer inner c amb').map (·.conn) =
              some ((o.conn.send (rejection.reply.frame seq amb'.clock)).goto .closed) := by
  have withheld : World.Withheld r c stop :=
    sound.invariant (fun _ _ _ withheld sound h => World.Withheld.step withheld sound h)
      ⟨exists_, rejected, outside⟩ reach
  refine ⟨?_, fun sub phase current => ?_⟩
  · obtain ⟨frames, sent, origin⟩ := Connection.sent_of_step next
    refine ⟨frames, sent, fun f member state => ?_⟩
    obtain ⟨q, accepted, frame⟩ := origin f member state
    exact ⟨q, fun same => withheld.outside (same ▸ accepted), accepted, frame⟩
  · obtain ⟨rejection, found⟩ := Option.isSome_iff_exists.mp withheld.rejected
    exact ⟨rejection, found, denied_of_rejected phase current found next⟩

/-- The scene `stage` is rejected. -/
private def rejection : Action Value := .scene 1 (.reject .internal "bundle rejected")

private def rejectedStage : World Value := (twoScenes.step valuePlatform rejection).getD twoScenes

/-- A handshake with the rejected scene, up to the check. -/
private def rejectedHandshake : List (Action Value) :=
  activation "stage" ++ (connect 0).take 4

private def silent : Ambient := { clock := ⟨0, 0, 0⟩, identity := none }

theorem rejected_scene_ships_nothing_handshake :
    ∃ stop o, run (World.step valuePlatform) rejectedStage rejectedHandshake = some stop ∧
      (stop.conns 0).step valuePlatform.toTextLayer stop.inner 0 silent = some o ∧
      ∃ found, (stop.inner.heap 1).scene.rejection = some found ∧ ∃ seq,
        (o.conn.step valuePlatform.toTextLayer stop.inner 0 silent).map (·.conn) =
          some ((o.conn.send (found.reply.frame seq silent.clock)).goto .closed) := by
  have ends : (run (World.step valuePlatform) rejectedStage rejectedHandshake).any (fun stop =>
      (stop.conns 0).phase = .checking { token := "t" } ∧
        (stop.conns 0).current = some 1) = true := by
    decide
  obtain ⟨stop, reach, phase, current⟩ := exists_run_of_any ends
  cases next : (stop.conns 0).step valuePlatform.toTextLayer stop.inner 0 silent with
  | none => simp [Connection.step, phase, current] at next
  | some o =>
      obtain ⟨found, recorded, _, sends⟩ := (@rejected_scene_ships_nothing _ valuePlatform _ _ 1 0
        _ (by decide) (by decide) (by decide) (by decide) reach _ _ next).2 _ phase current
      exact ⟨stop, o, reach, next, found, recorded, sends stop.inner silent⟩

/-- A swap to the rejected scene sends its snapshot, and no error. -/
theorem rejected_scene_ships_snapshot :
    ∃ stop, run (World.step valuePlatform) twoScenes
        (connect 0 ++ rejection :: activation "stage" ++ List.replicate 6 (operatorStep 0)) =
          some stop ∧
      (stop.inner.heap 1).scene.rejection.isSome ∧
      (stop.conns 0).outbox.map ServerFrame.typeStr = ["snapshot", "scene_changed", "snapshot"] ∧
      ∃ x ∈ latestSnapshot (stop.conns 0).outbox, x.1.sceneId = "stage" :=
  exists_run_of_any (by decide)

end Lumencast.Server
