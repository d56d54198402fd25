import Lumencast.Server.NoLoss

/-!
# Following the active scene

A connection that names no scene reads the active-scene pointer when it resolves its
scene, and learns of later changes from the server events. `Connection.destination` is
the scene it reaches when it has processed the events queued for it. As long as no
change falls between the read and the subscription to the events, and the events are
sent in the order of the writes, the destination is the active scene or the event of
the active scene is still to be sent.
-/

namespace Lumencast.Server

open Foundation Protocol

variable {Text : Type}

namespace ServerInner

/-- The registered scene that is active. -/
def activeScene (inner : ServerInner Text) : Option SceneRef := inner.active.bind inner.scene

/-- The scene after an event; an event for an unknown scene is ignored. -/
def follow (inner : ServerInner Text) (current : Option SceneRef) : ServerEvent → Option SceneRef
  | .sceneSwap id => (inner.scene id).or current

end ServerInner

namespace Connection

/-- The connection receives the server events. -/
def listens (conn : Connection Text) : Bool :=
  match conn.phase with
  | .awaiting | .resolving _ | .lookingUp .. | .checking _ | .subscribing _
  | .subscribingEvents _ | .denying _ | .closed => false
  | .refusing _ stop => !stop
  | .comparing _ | .replaying _ | .readingSeq | .readingState _ | .live | .pollingEvents
  | .pollingDeltas | .migrating _ | .advancing _ | .swapReadingSeq _ | .swapReadingState ..
  | .resubscribing _ => true

/-- The scene the connection reaches with the event it is processing. -/
def heading (inner : ServerInner Text) (conn : Connection Text) : Option SceneRef :=
  match conn.phase with
  | .migrating id => (inner.scene id).or conn.current
  | phase => phase.target.or conn.current

/-- The scene the connection reaches with all events queued for it. -/
def destination (inner : ServerInner Text) (conn : Connection Text) : Option SceneRef :=
  (inner.events.pending conn.events).foldl inner.follow (conn.heading inner)

theorem destination_congr {inner inner' : ServerInner Text} {conn conn' : Connection Text}
    (scenes : inner'.scenes = inner.scenes) (events : inner'.events = inner.events)
    (position : conn'.events = conn.events) (heading : conn'.heading inner = conn.heading inner) :
    conn'.destination inner' = conn.destination inner := by
  have lookup := ServerInner.scene_congr scenes
  have follow : inner'.follow = inner.follow := by
    funext current event
    cases event
    rw [ServerInner.follow, ServerInner.follow, lookup]
  rw [destination, destination, follow, events, position, ← heading, Connection.heading,
    Connection.heading, lookup]

/-- An event that is sent comes last. -/
theorem destination_send {inner : ServerInner Text} {conn : Connection Text} (id : SceneId)
    (within : conn.events ≤ inner.events.sent.length) :
    conn.destination { inner with events := inner.events.send (.sceneSwap id) } =
      (inner.scene id).or (conn.destination inner) := by
  rw [destination, Broadcast.pending_send _ within, List.foldl_append]
  rfl

/-- A message of the main loop starts no swap. -/
theorem heading_onMessage {T : TextLayer Text} {c : Nat} {r : SceneRef} {scene : Scene Text}
    {conn : Connection Text} {amb : Ambient} {inner : ServerInner Text} (m : Message Text)
    (phase : conn.phase = .live) :
    (conn.onMessage T c r scene amb m).conn.events = conn.events ∧
      (conn.onMessage T c r scene amb m).conn.heading inner = conn.current := by
  cases m with
  | text t =>
      rw [onMessage]
      rcases handleTextFrame T scene conn.identity conn.rate amb.clock.instant t with ⟨v, rate⟩
      cases v <;> simp [send, goto, heading, phase, Phase.target]
  | _ => simp [onMessage, Connection.refuse, goto, heading, phase, Phase.target]

/-- A handler step leads to the same scene, or subscribes to the events. -/
theorem destination_of_step {T : TextLayer Text} {inner : ServerInner Text} {c : Nat}
    {conn : Connection Text} {amb : Ambient} {o : Outcome Text}
    (h : conn.step T inner c amb = some o) (listens : o.conn.listens = true) :
    (∃ sub, conn.phase = .subscribingEvents sub ∧ o.conn.events = inner.events.sent.length ∧
        o.conn.destination inner = conn.current) ∨
      (conn.listens = true ∧ o.conn.destination inner = conn.destination inner ∧
        (conn.events ≤ inner.events.sent.length → o.conn.events ≤ inner.events.sent.length)) := by
  have kept (before : conn.listens = true) (position : o.conn.events = conn.events)
      (heading : o.conn.heading inner = conn.heading inner) :
      conn.listens = true ∧ o.conn.destination inner = conn.destination inner ∧
        (conn.events ≤ inner.events.sent.length → o.conn.events ≤ inner.events.sent.length) :=
    ⟨before, destination_congr rfl rfl position heading, fun within => position ▸ within⟩
  cases transition_of_step h with
  | authenticate | turnAway | hangUp | resolve | notResolved | lookUp | notFound | reject | accept
  | subscribe | deny | loseEvents => cases listens
  | compare phase | startAfresh phase =>
      refine .inl ⟨_, phase, rfl, ?_⟩
      rw [destination, Broadcast.pending_subscribe]
      rfl
  | @message r m inbox phase _ _ =>
      have here : conn.heading inner = conn.current := by simp [heading, phase, Phase.target]
      obtain ⟨position, leads⟩ :=
        @heading_onMessage _ T c r (inner.heap r).scene { conn with inbox } amb inner m phase
      exact .inr (kept (by simp [Connection.listens, phase]) position (leads.trans here.symm))
  | @swap id next phase received =>
      refine .inr ⟨by simp [Connection.listens, phase], ?_, fun _ => ?_⟩
      · rw [destination, destination, Broadcast.pending_of_recv received]
        simp [heading, phase, Phase.target, ServerInner.follow]
      · obtain ⟨_, found, rfl⟩ := Broadcast.recv_eq_message.mp received
        exact (List.getElem?_eq_some_iff.mp found).1
  | @refuse reply stop r phase _ =>
      cases stop with
      | true => cases listens
      | false =>
          refine .inr (kept (by simp [Connection.listens, phase]) rfl ?_)
          simp [heading, phase, Phase.target, goto, send]
  | migrate phase found | stay phase found =>
      refine .inr (kept (by simp [Connection.listens, phase]) rfl ?_)
      simp [heading, phase, Phase.target, goto, found]
  | resume phase | ahead phase | replay phase | notCovered phase | readSeq phase
  | readState phase | pollEvents phase | pollDeltas phase | deliver phase | loseDeltas phase
  | pollSocket phase | leave phase | crossSeq phase | crossState phase | land phase =>
      refine .inr (kept (by simp [Connection.listens, phase]) rfl ?_)
      simp [heading, phase, Phase.target, goto, send, Connection.refuse]

end Connection

/-- The call is a `set_active_scene`, and a scene it has looked up is registered. -/
def ServerInner.Swaps (inner : ServerInner Text) : ServerCall → Prop
  | .setActiveScene _ => True
  | .writeActive id | .sendSwap id => (inner.scene id).isSome
  | .register _ | .insert _ | .activate .. | .clearScenes | .clearActive => False

theorem ServerInner.swaps_congr {inner inner' : ServerInner Text}
    (scenes : inner'.scenes = inner.scenes) : inner'.Swaps = inner.Swaps := by
  funext call
  cases call <;> simp only [ServerInner.Swaps, ServerInner.scene_congr scenes]

/-- Every call of the server handle is a `set_active_scene`. -/
def Action.SetsActiveOnly : Action Text → Prop
  | .request _ q => ∃ id, q = .setActiveScene id
  | .scene .. | .serve _ | .receive .. | .handler .. | .hangup _ => True

namespace World

/-- The task `n` is about to send the event of the active scene. -/
def Announces (w : World Text) (n : Nat) : Prop :=
  ∃ id, w.inner.active = some id ∧ w.tasks n = some (.sendSwap id)

/-- When the connection subscribes to the events it is at the active scene, and when an
event is sent it names the active scene, unless the event of the active scene is still
to be sent. -/
def AnnouncesInOrder (c : Nat) (w : World Text) : Action Text → Prop
  | .handler d _ => d = c → ∀ sub, (w.conns d).phase = .subscribingEvents sub →
      (w.conns d).current = w.inner.activeScene ∨ ∃ n, w.Announces n
  | .serve n => ∀ id, w.tasks n = some (.sendSwap id) →
      w.inner.active = some id ∨ ∃ m, m ≠ n ∧ w.Announces m
  | _ => True

/-- The connection reaches the active scene with the events that are queued, or an event
of the active scene will be queued. -/
structure Guided (c : Nat) (w : World Text) : Prop where
  named : ∀ {n call}, w.tasks n = some call → w.inner.Swaps call
  within : (w.conns c).listens = true → (w.conns c).events ≤ w.inner.events.sent.length
  heads : (w.conns c).listens = true →
    (w.conns c).destination w.inner = w.inner.activeScene ∨ ∃ n, w.Announces n

namespace Guided

variable {P : Platform Text} {w w' : World Text} {a : Action Text} {c : Nat}

/-- Nothing the connection follows has changed, and no call is near its event. -/
theorem frame (guided : w.Guided c) (conn : w'.conns c = w.conns c)
    (scenes : w'.inner.scenes = w.inner.scenes) (active : w'.inner.active = w.inner.active)
    (events : w'.inner.events = w.inner.events)
    (named : ∀ {n call}, w'.tasks n = some call → w.inner.Swaps call)
    (announces : ∀ n, w.Announces n → w'.Announces n) : w'.Guided c := by
  refine ⟨fun task => ?_, fun listens => ?_, fun listens => ?_⟩
  · rw [ServerInner.swaps_congr scenes]
    exact named task
  · rw [conn, events]
    exact guided.within (conn ▸ listens)
  · rw [conn, ServerInner.activeScene, active, ServerInner.scene_congr scenes,
      Connection.destination_congr scenes events rfl rfl]
    exact (guided.heads (conn ▸ listens)).imp_right fun ⟨n, h⟩ => ⟨n, announces n h⟩

/-- The calls after a step of one of them. -/
theorem named_of_update (guided : w.Guided c) {n : Nat} {rest : Option ServerCall}
    (tasks : w'.tasks = Function.update w.tasks n rest)
    (next : ∀ call ∈ rest, w.inner.Swaps call) {m : Nat} {call : ServerCall}
    (task : w'.tasks m = some call) : w.inner.Swaps call := by
  rw [tasks] at task
  by_cases same : m = n
  · subst same
    rw [Function.update_self] at task
    exact next call task
  · rw [Function.update_of_ne same] at task
    exact guided.named task

/-- Another task is still about to send its event. -/
theorem announces_of_update {n m : Nat} {rest : Option ServerCall} (other : m ≠ n)
    (active : w'.inner.active = w.inner.active)
    (tasks : w'.tasks = Function.update w.tasks n rest) (h : w.Announces m) : w'.Announces m := by
  obtain ⟨id, current, task⟩ := h
  refine ⟨id, active.trans current, ?_⟩
  rw [tasks, Function.update_of_ne other]
  exact task

theorem setActiveScene (guided : w.Guided c) {n : Nat} {id : SceneId}
    (task : w.tasks n = some (.setActiveScene id)) (conn : w'.conns c = w.conns c)
    (inner : w'.inner = w.inner)
    (tasks : w'.tasks = Function.update w.tasks n
      ((ServerCall.setActiveScene id).step P w.inner).2.rest) : w'.Guided c := by
  refine guided.frame conn (by rw [inner]) (by rw [inner]) (by rw [inner])
    (guided.named_of_update tasks fun call next => ?_) fun m announces => ?_
  · rw [ServerCall.step] at next
    split at next
    · next registered =>
      cases next
      exact registered
    · cases next
  · refine announces_of_update ?_ (by rw [inner]) tasks announces
    rintro rfl
    obtain ⟨key, _, sending⟩ := announces
    cases task.symm.trans sending

theorem writeActive (guided : w.Guided c) {n : Nat} {id : SceneId}
    (registered : (w.inner.scene id).isSome) (conn : w'.conns c = w.conns c)
    (inner : w'.inner = { w.inner with active := some id })
    (tasks : w'.tasks = Function.update w.tasks n (some (.sendSwap id))) : w'.Guided c := by
  have announces : w'.Announces n := by
    refine ⟨id, by rw [inner], ?_⟩
    rw [tasks]
    exact Function.update_self ..
  have scenes : w'.inner.scenes = w.inner.scenes := by rw [inner]
  refine ⟨fun {m call} task => ?_, fun listens => ?_, fun _ => .inr ⟨n, announces⟩⟩
  · rw [ServerInner.swaps_congr scenes]
    exact guided.named_of_update tasks (by simpa [ServerInner.Swaps] using registered) task
  · rw [conn, inner]
    exact guided.within (conn ▸ listens)

theorem sendSwap (guided : w.Guided c) {n : Nat} {id : SceneId}
    (registered : (w.inner.scene id).isSome)
    (inOrder : w.inner.active = some id ∨ ∃ m, m ≠ n ∧ w.Announces m)
    (conn : w'.conns c = w.conns c)
    (inner : w'.inner = { w.inner with events := w.inner.events.send (.sceneSwap id) })
    (tasks : w'.tasks = Function.update w.tasks n none) : w'.Guided c := by
  have scenes : w'.inner.scenes = w.inner.scenes := by rw [inner]
  have active : w'.inner.active = w.inner.active := by rw [inner]
  refine ⟨fun {m call} task => ?_, fun listens => ?_, fun listens => ?_⟩
  · rw [ServerInner.swaps_congr scenes]
    exact guided.named_of_update tasks (by simp) task
  · rw [conn, inner]
    exact Nat.le_trans (guided.within (conn ▸ listens)) (by simp)
  · rcases inOrder with current | ⟨m, other, announces⟩
    · left
      obtain ⟨r, found⟩ := Option.isSome_iff_exists.mp registered
      have target : w'.inner.activeScene = some r := by
        rw [ServerInner.activeScene, active, ServerInner.scene_congr scenes, current]
        exact found
      rw [target, conn, inner, Connection.destination_send id (guided.within (conn ▸ listens)),
        found]
      rfl
    · exact .inr ⟨m, announces_of_update other active tasks announces⟩

theorem serve (guided : w.Guided c) {n : Nat} {call : ServerCall} (task : w.tasks n = some call)
    (inOrder : w.AnnouncesInOrder c (.serve n)) (conn : w'.conns c = w.conns c)
    (inner : w'.inner = (call.step P w.inner).1)
    (tasks : w'.tasks = Function.update w.tasks n (call.step P w.inner).2.rest) :
    w'.Guided c := by
  have swaps := guided.named task
  cases call with
  | setActiveScene id =>
      rw [(ServerCall.step_check P _).2] at inner
      exact guided.setActiveScene task conn inner tasks
  | writeActive id => exact guided.writeActive swaps conn inner tasks
  | sendSwap id => exact guided.sendSwap swaps (inOrder id task) conn inner tasks
  | register | insert | activate | clearScenes | clearActive => exact swaps.elim

theorem step (guided : w.Guided c) (only : a.SetsActiveOnly) (inOrder : w.AnnouncesInOrder c a)
    (h : w.step P a = some w') : w'.Guided c := by
  rcases call_cases h with ⟨n, call, rfl, task, inner, tasks⟩ |
    ⟨n, q, rfl, free, inner, tasks⟩ | ⟨tasks, _, scenes, active, events⟩
  · have conn : w'.conns c = w.conns c := congrFun (conns_of_call h (.inl ⟨n, rfl⟩)) c
    exact guided.serve task inOrder conn inner tasks
  · have conn : w'.conns c = w.conns c := congrFun (conns_of_call h (.inr ⟨n, q, rfl⟩)) c
    refine guided.frame conn (by rw [inner]) (by rw [inner]) (by rw [inner])
      (guided.named_of_update tasks ?_) fun m announces => ?_
    · obtain ⟨id, rfl⟩ := only
      simp [ServerRequest.start, ServerInner.Swaps]
    · refine announces_of_update ?_ (by rw [inner]) tasks announces
      rintro rfl
      obtain ⟨_, _, task⟩ := announces
      cases free.symm.trans task
  · have announces (n : Nat) : w.Announces n → w'.Announces n := by
      rintro ⟨id, current, task⟩
      exact ⟨id, active.trans current, tasks ▸ task⟩
    have aims : w'.inner.activeScene = w.inner.activeScene := by
      rw [ServerInner.activeScene, ServerInner.activeScene, active, ServerInner.scene_congr scenes]
    have follows (listens : (w'.conns c).listens = true) :
        (w'.conns c).events ≤ w.inner.events.sent.length ∧
          ((w'.conns c).destination w.inner = w.inner.activeScene ∨ ∃ n, w.Announces n) := by
      rcases conn_cases h c with same | ⟨m, _, same⟩ | ⟨_, same⟩ | ⟨amb, o, rfl, stepped, same, _⟩
      · rw [same] at listens ⊢
        exact ⟨guided.within listens, guided.heads listens⟩
      · rw [same] at listens ⊢
        exact ⟨guided.within listens, guided.heads listens⟩
      · rw [same] at listens
        cases listens
      · rw [same] at listens ⊢
        rcases Connection.destination_of_step stepped listens with
          ⟨sub, phase, position, reaches⟩ | ⟨before, reaches, within⟩
        · rw [reaches]
          exact ⟨Nat.le_of_eq position, inOrder rfl sub phase⟩
        · rw [reaches]
          exact ⟨within (guided.within before), guided.heads before⟩
    refine ⟨fun task => ?_, fun listens => ?_, fun listens => ?_⟩
    · rw [ServerInner.swaps_congr scenes]
      exact guided.named (tasks ▸ task)
    · rw [events]
      exact (follows listens).1
    · rw [aims, Connection.destination_congr scenes events rfl rfl]
      exact (follows listens).2.imp_right fun ⟨n, h⟩ => ⟨n, announces n h⟩

end Guided
end World

/-- The main loop is between two branches, or about to answer an input with an error. -/
def Connection.atRest (conn : Connection Text) : Bool :=
  match conn.phase with
  | .live | .pollingEvents | .pollingDeltas | .refusing _ false => true
  | _ => false

theorem Connection.destination_of_atRest {inner : ServerInner Text} {conn : Connection Text}
    (rests : conn.atRest = true) (drained : inner.events.recv conn.events = .empty) :
    conn.listens = true ∧ conn.destination inner = conn.current := by
  rw [destination, Broadcast.pending_of_empty drained]
  unfold atRest at rests
  split at rests
  · next phase => simp [listens, heading, phase, Phase.target]
  · next phase => simp [listens, heading, phase, Phase.target]
  · next phase => simp [listens, heading, phase, Phase.target]
  · next phase => simp [listens, heading, phase, Phase.target]
  · cases rests

/-- In every run of handshakes and `set_active_scene` calls in which the connection is at
the active scene when it subscribes to the events, and each event names the active scene,
unless the event of the active scene is still to be sent: once every call has returned
and the events are drained, the connection is at the active scene. -/
theorem no_stale_scene {P : Platform Text} {start stop : World Text} {c : Nat}
    {schedule : List (Action Text)} (idle : ∀ n, start.tasks n = none)
    (awaiting : (start.conns c).phase = .awaiting) (only : ∀ a ∈ schedule, a.SetsActiveOnly)
    (inOrder : Along (World.step P) (World.AnnouncesInOrder c) start schedule)
    (reach : run (World.step P) start schedule = some stop) (returned : ∀ n, stop.tasks n = none)
    (rests : (stop.conns c).atRest = true)
    (drained : stop.inner.events.recv (stop.conns c).events = .empty) :
    (stop.conns c).current = stop.inner.activeScene := by
  have silent : (start.conns c).listens = false := by simp [Connection.listens, awaiting]
  have guided : start.Guided c := by
    refine ⟨fun task => ?_, fun listens => ?_, fun listens => ?_⟩
    · cases (idle _).symm.trans task
    · cases silent.symm.trans listens
    · cases silent.symm.trans listens
  have conditions := (Along.of_forall_mem fun a member _ => only a member).and inOrder
  have guided : stop.Guided c :=
    conditions.invariant (fun _ _ _ guided both h => guided.step both.1 both.2 h) guided reach
  obtain ⟨listens, here⟩ := Connection.destination_of_atRest rests drained
  rcases guided.heads listens with reaches | ⟨n, id, _, task⟩
  · rw [← here, reaches]
  · cases (returned n).symm.trans task

/-- The form of the condition that is decided when task 0 makes all calls. -/
private def announcesInTurn (c : Nat) (w : World Value) : Action Value → Bool
  | .handler d _ =>
      match (w.conns d).phase with
      | .subscribingEvents _ => d ≠ c || (w.conns d).current = w.inner.activeScene ||
          w.inner.active.any fun id => w.tasks 0 = some (.sendSwap id)
      | _ => true
  | .serve n =>
      match w.tasks n with
      | some (.sendSwap id) => w.inner.active = some id
      | _ => true
  | _ => true

private theorem announcesInOrder_of_inTurn {c : Nat} {w : World Value} {a : Action Value}
    (inTurn : announcesInTurn c w a = true) : w.AnnouncesInOrder c a := by
  cases a with
  | handler d amb =>
      rintro rfl sub phase
      simp only [announcesInTurn, phase, ne_eq, not_true_eq_false, decide_false, Bool.false_or,
        Bool.or_eq_true, decide_eq_true_eq, Option.any_eq_true] at inTurn
      exact inTurn.imp_right fun ⟨id, active, task⟩ => ⟨0, id, active, task⟩
  | serve n =>
      intro id task
      simp only [announcesInTurn, task, decide_eq_true_eq] at inTurn
      exact .inl inTurn
  | scene | request | receive | hangup => trivial

private def swapTo (n : Nat) (id : SceneId) : Action Value := .request n (.setActiveScene id)

/-- A swap that is written before the connection subscribes to the events, and announced
afterwards. -/
private def announcedSwap : List (Action Value) :=
  (connect 0).take 6 ++ [swapTo 0 "stage", .serve 0, .serve 0, operatorStep 0, .serve 0] ++
    List.replicate 9 (operatorStep 0)

theorem no_stale_scene_announcedSwap :
    ∃ stop, run (World.step valuePlatform) twoScenes announcedSwap = some stop ∧
      stop.inner.activeScene = some 1 ∧ (stop.conns 0).current = stop.inner.activeScene := by
  have ends : (run (World.step valuePlatform) twoScenes announcedSwap).any (fun stop =>
      stop.inner.activeScene = some 1 ∧ (∀ n < 1, stop.tasks n = none) ∧
        (stop.conns 0).atRest = true ∧
        stop.inner.events.recv (stop.conns 0).events = .empty) = true := by
    decide
  obtain ⟨stop, reach, active, done, rests, drained⟩ := exists_run_of_any ends
  have inTurn : Along (World.step valuePlatform) (fun w a => announcesInTurn 0 w a = true)
      twoScenes announcedSwap := by
    decide
  have only : ∀ a ∈ announcedSwap, a.SetsActiveOnly := by
    simp [announcedSwap, connect, swapTo, operatorStep, Action.SetsActiveOnly]
  have returned := World.idle_of_below (k := 1) (fun _ => rfl) (by decide) reach done
  exact ⟨stop, reach, active, no_stale_scene (c := 0) (fun _ => rfl) rfl only
    (inTurn.mono fun _ _ => announcesInOrder_of_inTurn) reach returned rests drained⟩

/-- A swap between the read of the pointer and the subscription to the events. -/
private def missedSwap : List (Action Value) :=
  (connect 0).take 6 ++ activation "stage" ++ List.replicate 4 (operatorStep 0)

/-- Two swaps that are announced in the other order than they are written. -/
private def crossedSwaps : List (Action Value) :=
  connect 0 ++ [swapTo 0 "studio", swapTo 1 "stage", .serve 0, .serve 1, .serve 0, .serve 1,
    .serve 1, .serve 0] ++ List.replicate 14 (operatorStep 0)

/-- With no call in progress and no event queued, connection 0 is at another scene than the
active one. -/
private def StrandedBy (schedule : List (Action Value)) : Prop :=
  ∃ stop, run (World.step valuePlatform) twoScenes schedule = some stop ∧
    (∀ n, stop.tasks n = none) ∧ (stop.conns 0).atRest = true ∧
    stop.inner.events.recv (stop.conns 0).events = .empty ∧
    (stop.conns 0).current ≠ stop.inner.activeScene

private theorem strandedBy_of_any {schedule : List (Action Value)}
    (named : ∀ a ∈ schedule, a.isBelow 2 = true)
    (ends : (run (World.step valuePlatform) twoScenes schedule).any (fun stop =>
      (∀ n < 2, stop.tasks n = none) ∧ (stop.conns 0).atRest = true ∧
        stop.inner.events.recv (stop.conns 0).events = .empty ∧
        (stop.conns 0).current ≠ stop.inner.activeScene) = true) : StrandedBy schedule := by
  obtain ⟨stop, reach, done, rest⟩ := exists_run_of_any ends
  exact ⟨stop, reach, World.idle_of_below (fun _ => rfl) named reach done, rest⟩

/-- Either kind of overlap leaves the connection at the old scene for good. -/
theorem stale_scene : StrandedBy missedSwap ∧ StrandedBy crossedSwaps :=
  ⟨strandedBy_of_any (by decide) (by decide), strandedBy_of_any (by decide) (by decide)⟩

end Lumencast.Server
