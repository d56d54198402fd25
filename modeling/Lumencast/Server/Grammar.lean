import Lumencast.Protocol.RoundTrip
import Lumencast.Server.NoLoss

/-!
# The grammar of a connection

The frames that a connection is sent follow a grammar. `Talk` is its automaton: a connection
is shown a snapshot or turned away, then it is sent deltas, errors and answers to pings, and
a change of scene is followed at once by the snapshot of the scene it names. Nothing follows
an error that is not recoverable. A connection that resumes may skip the first snapshot.

The handler refines the automaton: `Phase.talk` maps its phases to the states of the automaton,
and an open connection is always in the state that its frames lead to.
-/

namespace Lumencast.Server

open Foundation Protocol

variable {Text : Type}

/-- What may be sent next. -/
inductive Talk where
  /-- Nothing was sent. -/
  | silent
  | main
  /-- The change to a scene was announced. -/
  | crossing (id : SceneId) (version : SceneVersion)
  | ended
  deriving DecidableEq, Repr

def Talk.hear : Talk → ServerFrame → Option Talk
  | silent, .snapshot _ => some main
  | silent, .error f => if f.recoverable then none else some ended
  | main, .delta _ | main, .pong _ => some main
  | main, .error f => some (if f.recoverable then main else ended)
  | main, .sceneChanged f => some (crossing f.sceneId f.sceneVersion)
  | crossing id version, .snapshot f =>
      if f.sceneId = id ∧ f.sceneVersion = version then some main else none
  | _, _ => none

namespace Talk

/-- No frame leads back to silence. -/
theorem hear_ne_silent {t : Talk} {f : ServerFrame} : t.hear f ≠ some .silent := by
  unfold hear
  split <;> (try split) <;> simp

/-- Silence is kept by saying nothing. -/
theorem silent_of_run {t : Talk} {frames : List ServerFrame}
    (heard : run hear t frames = some .silent) : t = .silent ∧ frames = [] := by
  induction frames generalizing t with
  | nil => exact ⟨Option.some.inj heard, rfl⟩
  | cons f frames ih =>
      obtain ⟨next, first, rest⟩ := run_cons_eq_some.mp heard
      obtain ⟨rfl, _⟩ := ih rest
      exact absurd first hear_ne_silent

/-- Nothing is said any more. -/
theorem ended_of_run {t : Talk} {frames : List ServerFrame}
    (heard : run hear .ended frames = some t) : frames = [] ∧ t = .ended := by
  cases frames with
  | nil => exact ⟨rfl, (Option.some.inj heard).symm⟩
  | cons f frames => cases heard

theorem run_deltas (deltas : List Delta) :
    run hear .main (deltas.map ServerFrame.delta) = some .main := by
  induction deltas with
  | nil => rfl
  | cons d deltas ih => exact ih

end Talk

/-- The state of the automaton in a phase. -/
def Phase.talk (inner : ServerInner Text) : Phase → Talk
  | .awaiting | .resolving _ | .lookingUp .. | .checking _ | .subscribing _ | .subscribingEvents _
  | .comparing _ | .replaying _ | .readingSeq | .readingState _ | .denying _ => .silent
  | .live | .pollingEvents | .pollingDeltas | .refusing .. | .migrating _ | .advancing _
  | .resubscribing _ => .main
  | .swapReadingSeq r | .swapReadingState r _ =>
      .crossing (inner.heap r).scene.id (inner.heap r).scene.version
  | .closed => .ended

theorem Phase.closed_of_talk {inner : ServerInner Text} {phase : Phase}
    (ended : phase.talk inner = .ended) : phase = .closed := by
  cases phase <;> simp [talk] at ended ⊢

/-- The subscription asks to resume. -/
def AsksToResume (sub : Subscribe) : Prop := ∃ since ∈ sub.sinceSequence, 0 < since

def Message.Resumes (T : TextLayer Text) : Message Text → Prop
  | .text t => ∃ sub, decodeClient T t = .ok (.subscribe sub) ∧ AsksToResume sub
  | _ => False

/-- The handshake may still end in a replay. -/
def Phase.Resumes : Phase → Prop
  | .resolving sub | .lookingUp sub _ | .checking sub | .subscribing sub | .subscribingEvents sub =>
      AsksToResume sub
  | .comparing _ | .replaying _ => True
  | _ => False

/-- The handler stops after an error that is not recoverable. -/
def Phase.Final : Phase → Prop
  | .denying reply => reply.recoverable = false
  | .refusing reply stop => reply.recoverable = false → stop = true
  | _ => True

/-- A text is answered for good when the handler stops. -/
theorem final_of_handleTextFrame {T : TextLayer Text} {scene : Scene Text} {identity : Identity}
    {rate rate' : RateBucket} {now : Nat} {text : Text} {reply : ErrorReply} {stop : Bool}
    (h : handleTextFrame T scene identity rate now text = (.refuse reply stop, rate')) :
    reply.recoverable = false → stop = true := by
  unfold handleTextFrame at h
  split at h
  · cases h
    exact fun final => nomatch final
  · cases h
    exact fun _ => rfl
  · cases h
    exact fun _ => rfl
  · cases h
  · cases h
    exact fun _ => rfl
  · next input _ =>
    have verdict := inputVerdict_handleInput T scene identity rate now input
    rw [h] at verdict
    intro final
    cases verdict with
    | role | empty | limit | emission => cases final
    | patch _ refused =>
        rw [(checkPatch_eq_some refused).1] at final
        cases final
  · cases h

namespace Connection

/-- What the connection was sent is grammatical, from a snapshot on unless it asked to
resume, and it is open in the state of its phase. -/
structure Talks (resumed : Prop) (inner : ServerInner Text) (conn : Connection Text) : Prop where
  heard : ∃ first t, (first = .silent ∨ first = .main ∧ resumed) ∧
    run Talk.hear first conn.outbox = some t ∧
      (conn.phase = .closed ∨ t = conn.phase.talk inner)
  final : conn.phase.Final
  resumes : conn.phase.Resumes → resumed

variable {resumed : Prop} {T : TextLayer Text} {inner : ServerInner Text} {c : Nat}
  {conn conn' : Connection Text} {amb : Ambient} {o : Outcome Text}

/-- The connection may be closed at any time. -/
theorem Talks.closes (talks : conn.Talks resumed inner) :
    (conn.goto .closed).Talks resumed inner where
  heard := by
    obtain ⟨first, t, begins, before, _⟩ := talks.heard
    exact ⟨first, t, begins, before, .inl rfl⟩
  final := trivial
  resumes := False.elim

theorem Talks.congr {inner' : ServerInner Text} (talks : conn.Talks resumed inner)
    (same : conn.phase.talk inner' = conn.phase.talk inner) : conn.Talks resumed inner' where
  heard := by
    rw [same]
    exact talks.heard
  final := talks.final
  resumes := talks.resumes

/-- More frames, and a phase that fits them. -/
theorem Talks.says (talks : conn.Talks resumed inner) {frames : List ServerFrame} {t : Talk}
    (goesOn : conn.phase ≠ .closed) (outbox : conn'.outbox = conn.outbox ++ frames)
    (heard : run Talk.hear (conn.phase.talk inner) frames = some t)
    (after : conn'.phase = .closed ∨ t = conn'.phase.talk inner) (final : conn'.phase.Final)
    (resumes : conn'.phase.Resumes → resumed) : conn'.Talks resumed inner where
  heard := by
    obtain ⟨first, t', begins, before, closed | rfl⟩ := talks.heard
    · exact absurd closed goesOn
    · refine ⟨first, t, begins, ?_, after⟩
      rw [outbox, run_append_eq_some]
      exact ⟨_, before, heard⟩
  final := final
  resumes := resumes

/-- Nothing is said. -/
theorem Talks.waits (talks : conn.Talks resumed inner) (goesOn : conn.phase ≠ .closed)
    (outbox : conn'.outbox = conn.outbox)
    (after : conn'.phase = .closed ∨ conn.phase.talk inner = conn'.phase.talk inner)
    (final : conn'.phase.Final) (resumes : conn'.phase.Resumes → resumed) :
    conn'.Talks resumed inner :=
  have outbox : conn'.outbox = conn.outbox ++ [] := by rw [outbox, List.append_nil]
  talks.says goesOn outbox rfl after final resumes

/-- A connection that resumes is sent the records from the main loop on. -/
theorem Talks.replays (talks : conn.Talks resumed inner) {since : Nat} {deltas : List Delta}
    (phase : conn.phase = .replaying since)
    (outbox : conn'.outbox = conn.outbox ++ deltas.map ServerFrame.delta)
    (phase' : conn'.phase = .live) : conn'.Talks resumed inner where
  heard := by
    have asked : resumed := talks.resumes (by rw [phase]; trivial)
    obtain ⟨first, t, _, before, closed | rfl⟩ := talks.heard
    · rw [phase] at closed
      cases closed
    · rw [phase] at before
      obtain ⟨_, silent⟩ := Talk.silent_of_run before
      refine ⟨.main, .main, .inr ⟨rfl, asked⟩, ?_, .inr ?_⟩
      · rw [outbox, silent]
        exact Talk.run_deltas deltas
      · rw [phase']
        rfl
  final := by
    rw [phase']
    trivial
  resumes := by
    rw [phase']
    exact False.elim

/-- A message of the main loop. -/
theorem Talks.onMessage {r : SceneRef} {scene : Scene Text} (talks : conn.Talks resumed inner)
    (phase : conn.phase = .live) (m : Message Text) :
    (conn.onMessage T c r scene amb m).conn.Talks resumed inner := by
  have goesOn : conn.phase ≠ .closed := by simp [phase]
  have same : conn.phase.talk inner = conn.phase.talk inner := rfl
  cases m with
  | text t =>
      rw [Connection.onMessage]
      cases handled : handleTextFrame T scene conn.identity conn.rate amb.clock.instant t with
      | mk verdict rate =>
          cases verdict with
          | answer pong =>
              refine talks.says (t := .main) goesOn rfl (by rw [phase]; rfl) (.inr ?_) talks.final
                talks.resumes
              simp [send, phase, Phase.talk]
          | refuse reply stop =>
              exact talks.waits goesOn rfl (.inr (by rw [phase]; rfl))
                (final_of_handleTextFrame handled) False.elim
          | stop => exact talks.waits goesOn rfl (.inl rfl) trivial False.elim
          | publish patches cause =>
              exact talks.waits goesOn rfl (.inr same) talks.final talks.resumes
          | ignore => exact talks.waits goesOn rfl (.inr same) talks.final talks.resumes
  | binary => exact talks.waits goesOn rfl (.inr (by rw [phase]; rfl)) (fun _ => rfl) False.elim
  | ping | pong => exact talks.waits goesOn rfl (.inr same) talks.final talks.resumes
  | close => exact talks.waits goesOn rfl (.inl rfl) trivial False.elim

/-- The first message decides whether the connection resumes. -/
theorem resumes_of_awaiting (phase : conn.phase = .awaiting) (h : conn.step T inner c amb = some o)
    (resumes : o.conn.phase.Resumes) : ∃ m ∈ conn.inbox.head?, m.Resumes T := by
  simp only [step, phase] at h
  obtain ⟨conn', received, rfl⟩ := Option.map_eq_some_iff.mp h
  unfold recvSubscribe at received
  split at received
  · cases received
  · next m rest first =>
    refine ⟨m, by rw [first]; rfl, ?_⟩
    cases m with
    | text t =>
        dsimp only at received
        split at received
        · next sub decoded =>
          split at received
          · cases received
            exact ⟨sub, decoded, resumes⟩
          · cases received
            exact resumes.elim
        · cases received
          exact resumes.elim
    | binary | ping | pong | close =>
        cases received
        exact resumes.elim

/-- The handler awaits the first message once. -/
theorem phase_ne_awaiting (h : conn.step T inner c amb = some o) : o.conn.phase ≠ .awaiting := by
  cases transition_of_step h with
  | @message r m rest phase _ _ =>
      have unread : ({ conn with inbox := rest } : Connection Text).phase ≠ .awaiting := by
        simp [phase]
      cases m with
      | text t =>
          rw [Connection.onMessage]
          rcases handleTextFrame T (inner.heap r).scene conn.identity conn.rate
            amb.clock.instant t with ⟨verdict, rate⟩
          cases verdict <;> simp [send, goto, phase]
      | _ => simp [Connection.onMessage, Connection.refuse, goto, phase]
  | @refuse reply stop => cases stop <;> simp [goto]
  | _ => simp [goto, send, Connection.deny, Connection.refuse]

/-- The handler follows the grammar, one transition after the other. -/
theorem Talks.step (talks : conn.Talks resumed inner)
    (asks : conn.phase = .awaiting → ∀ m ∈ conn.inbox.head?, m.Resumes T → resumed)
    (h : conn.step T inner c amb = some o) : o.conn.Talks resumed inner := by
  cases transition_of_step h with
  | authenticate phase =>
      refine talks.waits (by simp [phase]) rfl (.inr (by rw [phase]; rfl)) trivial fun resumes => ?_
      obtain ⟨m, first, resumes⟩ := resumes_of_awaiting phase h resumes
      exact asks phase m first resumes
  | turnAway phase | notResolved phase | notFound phase | reject phase =>
      exact talks.waits (by simp [phase]) rfl (.inr (by rw [phase]; rfl)) rfl False.elim
  | hangUp phase => exact talks.waits (by simp [phase]) rfl (.inl rfl) trivial False.elim
  | resolve phase | lookUp phase | accept phase | subscribe phase =>
      exact talks.waits (by simp [phase]) rfl (.inr (by rw [phase]; rfl)) trivial fun resumes =>
        talks.resumes (by rw [phase]; exact resumes)
  | @compare sub since phase asked positive =>
      exact talks.waits (by simp [phase]) rfl (.inr (by rw [phase]; rfl)) trivial fun _ =>
        talks.resumes (by rw [phase]; exact ⟨since, asked, positive⟩)
  | resume phase =>
      exact talks.waits (by simp [phase]) rfl (.inr (by rw [phase]; rfl)) trivial fun _ =>
        talks.resumes (by rw [phase]; trivial)
  | startAfresh phase | ahead phase | notCovered phase | readSeq phase =>
      exact talks.waits (by simp [phase]) rfl (.inr (by rw [phase]; rfl)) trivial False.elim
  | @replay since r phase _ _ =>
      have frames (records : List ReplayRecord) : records.map (fun r => ServerFrame.delta r.frame) =
          (records.map ReplayRecord.frame).map .delta := by
        simp [Function.comp_def]
      exact talks.replays phase (by rw [← frames]) rfl
  | readState phase =>
      exact talks.says (t := .main) (by simp [phase]) rfl (by rw [phase]; rfl) (.inr rfl) trivial
        False.elim
  | @deny reply phase =>
      have final : reply.recoverable = false := by simpa [phase, Phase.Final] using talks.final
      refine talks.says (t := .ended) (by simp [phase]) rfl ?_ (.inl rfl) trivial False.elim
      simp [phase, Phase.talk, ErrorReply.frame, Talk.hear, final]
  | pollEvents phase | swap phase | pollDeltas phase | pollSocket phase | migrate phase
  | stay phase | land phase =>
      exact talks.waits (by simp [phase]) rfl (.inr (by rw [phase]; rfl)) trivial False.elim
  | @message r m rest phase _ _ =>
      have unread : ({ conn with inbox := rest } : Connection Text).Talks resumed inner :=
        ⟨talks.heard, talks.final, talks.resumes⟩
      exact unread.onMessage phase m
  | loseEvents phase | loseDeltas phase =>
      exact talks.waits (by simp [phase]) rfl (.inr (by rw [phase]; rfl)) (fun _ => rfl) False.elim
  | deliver phase =>
      exact talks.says (t := .main) (by simp [phase]) rfl (by rw [phase]; rfl) (.inr rfl) trivial
        False.elim
  | @refuse reply stop r phase _ =>
      have final : reply.recoverable = false → stop = true := by
        simpa [phase, Phase.Final] using talks.final
      cases stop with
      | true =>
          refine talks.says (t := if reply.recoverable then .main else .ended) (by simp [phase]) rfl
            ?_ (.inl rfl) trivial False.elim
          simp [phase, Phase.talk, ErrorReply.frame, Talk.hear]
      | false =>
          have recovers : reply.recoverable = true := by simpa using final
          refine talks.says (t := .main) (by simp [phase]) rfl ?_ (.inr rfl) trivial False.elim
          simp [phase, Phase.talk, ErrorReply.frame, Talk.hear, recovers]
  | @leave r old phase _ =>
      exact talks.says (t := .crossing (inner.heap r).scene.id (inner.heap r).scene.version)
        (by simp [phase]) rfl (by rw [phase]; rfl) (.inr rfl) trivial False.elim
  | crossSeq phase =>
      exact talks.waits (by simp [phase]) rfl (.inr (by rw [phase]; rfl)) trivial False.elim
  | crossState phase =>
      refine talks.says (t := .main) (by simp [phase]) rfl ?_ (.inr rfl) trivial False.elim
      simp [phase, Phase.talk, snapshotFrame, Talk.hear]

end Connection

/-- A scene keeps its name and its version. -/
theorem SceneCell.identity_of_step {cell cell' : SceneCell Text} {a : SceneAction}
    (h : cell.step a = some cell') :
    cell'.scene.id = cell.scene.id ∧ cell'.scene.version = cell.scene.version := by
  cases a with
  | emit caller pairs cause =>
      obtain ⟨_, rfl | ⟨_, _, rfl⟩⟩ := step_emit h <;> exact ⟨rfl, rfl⟩
  | progress caller =>
      obtain ⟨⟨patches, cause, stage⟩, _, rfl⟩ := step_progress h
      cases stage <;> exact ⟨rfl, rfl⟩
  | change | reject | withOperatorInputs =>
      cases h
      exact ⟨rfl, rfl⟩

/-- The messages that a schedule brings to a connection. -/
def messagesTo (c : Nat) (schedule : List (Action Text)) : List (Message Text) :=
  schedule.filterMap fun
    | .receive d m => if d = c then some m else none
    | _ => none

namespace World

variable {P : Platform Text} {w w' : World Text} {a : Action Text}

theorem identity_of_step {r : SceneRef} (exists_ : r < w.inner.nextRef)
    (h : w.step P a = some w') : (w'.inner.heap r).scene.id = (w.inner.heap r).scene.id ∧
      (w'.inner.heap r).scene.version = (w.inner.heap r).scene.version := by
  rcases scene_cases h r with same | ⟨rfl, _⟩ | ⟨sa, stepped, _⟩
  · rw [same]
    exact ⟨rfl, rfl⟩
  · exact absurd exists_ (Nat.lt_irrefl _)
  · exact SceneCell.identity_of_step stepped

/-- The state of the automaton depends on scenes that exist. -/
theorem talk_of_step {phase : Phase} (target : ∀ r ∈ phase.target, r < w.inner.nextRef)
    (h : w.step P a = some w') : phase.talk w'.inner = phase.talk w.inner := by
  cases phase with
  | swapReadingSeq r | swapReadingState r seq =>
      obtain ⟨id, version⟩ := identity_of_step (target r rfl) h
      rw [Phase.talk, Phase.talk, id, version]
  | _ => rfl

/-- A connection awaits its first message until its handler has taken it. -/
theorem awaiting_of_step {c : Nat} (h : w.step P a = some w')
    (awaiting : (w'.conns c).phase = .awaiting) :
    (w.conns c).phase = .awaiting ∧
      (w'.conns c).inbox = (w.conns c).inbox ++ messagesTo c [a] := by
  have unheard (kept : (w'.conns c).inbox = (w.conns c).inbox) : messagesTo c [a] = [] := by
    cases a with
    | receive d m =>
        by_cases same : d = c
        · subst same
          cases h
          simp [setConn] at kept
        · simp [messagesTo, same]
    | scene | request | serve | handler | hangup => rfl
  rcases conn_cases h c with same | ⟨m, rfl, same⟩ | ⟨_, same⟩ | ⟨amb, o, _, stepped, same, _⟩
  · rw [unheard (by rw [same]), List.append_nil, ← same]
    exact ⟨awaiting, rfl⟩
  · rw [same] at awaiting ⊢
    exact ⟨awaiting, by simp [messagesTo]⟩
  · rw [same] at awaiting
    cases awaiting
  · rw [same] at awaiting
    exact absurd awaiting (Connection.phase_ne_awaiting stepped)

/-- The handler takes the first message that its connection is sent. -/
theorem along_first (P : Platform Text) {c : Nat} {first : Option (Message Text)}
    {schedule : List (Action Text)} {start : World Text}
    (begins : (start.conns c).phase = .awaiting →
      ((start.conns c).inbox ++ messagesTo c schedule).head? = first) :
    Along (World.step P) (AtHandler c fun _ conn =>
      conn.phase = .awaiting → ∀ m ∈ conn.inbox.head?, m ∈ first) start schedule := by
  induction schedule generalizing start with
  | nil => trivial
  | cons a schedule ih =>
      refine ⟨?_, fun mid stepped => ih fun awaiting => ?_⟩
      · cases a with
        | handler d amb =>
            rintro rfl awaiting m head
            rw [← begins awaiting, List.head?_append, head]
            rfl
        | scene | request | serve | receive | hangup => trivial
      · obtain ⟨before, inbox⟩ := awaiting_of_step stepped awaiting
        rw [← begins before, inbox, List.append_assoc]
        congr 2
        exact (List.filterMap_append ..).symm

theorem talks_of_run {start stop : World Text} {schedule : List (Action Text)}
    (init : start.Init) (reach : run (World.step P) start schedule = some stop) (c : Nat) :
    (stop.conns c).Talks (∃ m ∈ ((start.conns c).inbox ++ messagesTo c schedule).head?,
      m.Resumes P.toTextLayer) stop.inner := by
  generalize arrives : ((start.conns c).inbox ++ messagesTo c schedule).head? = message
  have takes : Along (World.step P) (AtHandler c fun _ conn =>
      conn.phase = .awaiting → ∀ m ∈ conn.inbox.head?, m ∈ message) start schedule :=
    along_first P fun _ => arrives
  have kept : stop.Wf ∧ (stop.conns c).Talks (∃ m ∈ message, m.Resumes P.toTextLayer)
      stop.inner := by
    refine takes.invariant (I := fun w => w.Wf ∧ (w.conns c).Talks
      (∃ m ∈ message, m.Resumes P.toTextLayer) w.inner) ?_ ⟨init.wf, ?_⟩ reach
    · intro w a w' ⟨wf, talks⟩ takes h
      refine ⟨wf.step h, ?_⟩
      have moved : (w'.conns c).Talks (∃ m ∈ message, m.Resumes P.toTextLayer) w.inner := by
        refine conn_step h (fun inbox => ⟨talks.heard, talks.final, talks.resumes⟩)
          talks.closes fun amb o taken stepped => ?_
        subst taken
        exact talks.step (fun awaiting m head resumes => ⟨m, takes rfl awaiting m head, resumes⟩)
          stepped
      exact moved.congr (talk_of_step (wf.refs_of_step h c).2 h)
    · exact {
        heard := ⟨.silent, .silent, .inl rfl, by rw [init.silent c]; rfl,
          .inr (by rw [init.awaiting c]; rfl)⟩
        final := by rw [init.awaiting c]; trivial
        resumes := by rw [init.awaiting c]; exact False.elim }
  exact kept.2

end World

/-- In every run, what a connection is sent follows the grammar, from the first snapshot or
denial on unless its first message asks to resume; and if it is open, its frames have led
the automaton to the state of its phase. -/
theorem wire_grammar {P : Platform Text} {start stop : World Text}
    {schedule : List (Action Text)} (init : start.Init)
    (reach : run (World.step P) start schedule = some stop) (c : Nat) :
    ∃ first t, (first = .silent ∨ first = .main ∧
        ∃ m ∈ ((start.conns c).inbox ++ messagesTo c schedule).head?, m.Resumes P.toTextLayer) ∧
      run Talk.hear first (stop.conns c).outbox = some t ∧
      ((stop.conns c).phase = .closed ∨ t = (stop.conns c).phase.talk stop.inner) :=
  (World.talks_of_run init reach c).heard

/-- A connection is shown the first scene and follows the change to the second one. -/
private def crossingRun : List (Action Value) :=
  connect 0 ++ activation "stage" ++ List.replicate 7 (operatorStep 0)

theorem wire_grammar_crossingRun :
    ∃ stop, run (World.step valuePlatform) twoScenes crossingRun = some stop ∧
      (stop.conns 0).outbox.map ServerFrame.typeStr = ["snapshot", "scene_changed", "snapshot"] ∧
      ∃ first t, (first = .silent ∨ first = .main ∧
          ∃ m ∈ ((twoScenes.conns 0).inbox ++ messagesTo 0 crossingRun).head?,
            m.Resumes valuePlatform.toTextLayer) ∧
        run Talk.hear first (stop.conns 0).outbox = some t ∧
        ((stop.conns 0).phase = .closed ∨ t = (stop.conns 0).phase.talk stop.inner) := by
  have ends : (run (World.step valuePlatform) twoScenes crossingRun).any (fun stop =>
      (stop.conns 0).outbox.map ServerFrame.typeStr =
        ["snapshot", "scene_changed", "snapshot"]) = true := by
    decide
  obtain ⟨stop, reach, sent⟩ := exists_run_of_any ends
  exact ⟨stop, reach, sent, wire_grammar twoScenes_init reach 0⟩

end Lumencast.Server
