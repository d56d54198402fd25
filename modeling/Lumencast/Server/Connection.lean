import Lumencast.Server.Handler
import Lumencast.Server.Registry

/-!
# The connection handler

One handler runs per client. A handler step is one locked access to shared
state, or one purely local decision; the phase names the next one. The main loop
polls the socket, the server events and the deltas in this order, each poll
being a step of its own. Frames are sent by appending them to the outbox.

Requests to shared scenes are returned as the effect of the step. `Transition`
lists the steps with their guards and outcomes, and `Move` is the summary of them
that most proofs about connections use: what a step does to the outbox, to the
receiver position and to the scene the connection listens to.
-/

namespace Lumencast.Server

open Foundation Protocol

variable {Text : Type}

/-- A WebSocket message as the handler receives it. -/
inductive Message (Text : Type) where
  | text (t : Text)
  | binary
  | ping
  | pong
  | close
  deriving DecidableEq

/-- What a step reads from its surroundings: the clocks, and the answer of the
authenticator. -/
structure Ambient where
  clock : Clock
  identity : Option Identity

/-- The next step of a handler. -/
inductive Phase where
  | awaiting
  | resolving (sub : Subscribe)
  | lookingUp (sub : Subscribe) (id : SceneId)
  | checking (sub : Subscribe)
  | subscribing (sub : Subscribe)
  | subscribingEvents (sub : Subscribe)
  | comparing (since : Nat)
  | replaying (since : Nat)
  | readingSeq
  | readingState (seq : Nat)
  /-- Send an error that ends the handshake. -/
  | denying (reply : ErrorReply)
  | live
  | pollingEvents
  | pollingDeltas
  /-- Send an error from the main loop, then stop or go on. -/
  | refusing (reply : ErrorReply) (stop : Bool)
  /-- The swap branch: look the scene up, leave the current one, send the
  snapshot of the new one, subscribe to it. -/
  | migrating (id : SceneId)
  | advancing (r : SceneRef)
  | swapReadingSeq (r : SceneRef)
  | swapReadingState (r : SceneRef) (seq : Nat)
  | resubscribing (r : SceneRef)
  | closed
  deriving DecidableEq

/-- The scene a swap leads to. -/
def Phase.target : Phase → Option SceneRef
  | advancing r | swapReadingSeq r | swapReadingState r _ | resubscribing r => some r
  | _ => none

structure Connection (Text : Type) where
  phase : Phase := .awaiting
  /-- Set by the authentication. -/
  identity : Identity := { subject := "", role := .viewer, paths := none }
  /-- Set after scene resolution. -/
  current : Option SceneRef := none
  deltas : Nat := 0
  events : Nat := 0
  rate : RateBucket
  inbox : List (Message Text) := []
  outbox : List ServerFrame := []

/-- A handler step: the connection after it, and what it asks of a scene. -/
structure Outcome (Text : Type) where
  conn : Connection Text
  effect : Option (SceneRef × SceneAction) := none

/-- A broadcast delta as a frame. -/
def DeltaPayload.frame (p : DeltaPayload) : Delta :=
  { seq := p.seq, patches := p.patches, cause := p.cause }

def ReplayRecord.frame (r : ReplayRecord) : Delta :=
  { seq := r.seq, patches := r.patches, cause := r.cause }

namespace Connection

def goto (conn : Connection Text) (phase : Phase) : Connection Text := { conn with phase }

def send (conn : Connection Text) (frame : ServerFrame) : Connection Text :=
  { conn with outbox := conn.outbox ++ [frame] }

/-- Send an error and stop. -/
def refuse (conn : Connection Text) (code : ErrorCode) (message : String) (recoverable : Bool) :
    Connection Text :=
  conn.goto (.refusing { code, message, recoverable } true)

/-- Send an error that ends the handshake. -/
def deny (conn : Connection Text) (code : ErrorCode) (message : String) : Connection Text :=
  conn.goto (.denying { code, message, recoverable := false })

/-- `recv_subscribe` and the authentication. -/
def recvSubscribe (T : TextLayer Text) (conn : Connection Text) (amb : Ambient) :
    Option (Connection Text) :=
  match conn.inbox with
  | [] => none
  | m :: inbox =>
      let conn := { conn with inbox }
      match m with
      | .text t =>
          match decodeClient T t with
          | .ok (.subscribe sub) =>
              match amb.identity with
              | some identity => some { conn with identity, phase := .resolving sub }
              | none => some (conn.deny .authDenied "invalid token")
          | _ => some (conn.goto .closed)
      | _ => some (conn.goto .closed)

/-- The resume branch of the handshake is taken for a positive `since_sequence`. -/
def afterSubscribing (sub : Subscribe) : Phase :=
  match sub.sinceSequence with
  | some since => if 0 < since then .comparing since else .readingSeq
  | none => .readingSeq

/-- Errors ride the current scene's number without advancing it, and number 0 before
a scene is resolved. -/
def errorSeq (inner : ServerInner Text) (conn : Connection Text) : Nat :=
  conn.current.elim 0 fun r => (inner.heap r).scene.currentSeq

/-- The snapshot of a scene, at a number read before its state. -/
def snapshotFrame (scene : Scene Text) (seq : Nat) (clock : Clock) : ServerFrame :=
  .snapshot { seq, sceneId := scene.id, sceneVersion := scene.version
              state := scene.snapshotState, ts := some (nowIso clock) }

def sceneChangedFrame (next : Scene Text) (seq : Nat) (clock : Clock) : ServerFrame :=
  .sceneChanged { seq, sceneId := next.id, sceneVersion := next.version, ts := some (nowIso clock) }

/-- One message of the main loop, on the scene the connection is attached to. -/
def onMessage (T : TextLayer Text) (c : Nat) (r : SceneRef) (scene : Scene Text)
    (conn : Connection Text) (amb : Ambient) : Message Text → Outcome Text
  | .text t =>
      let (verdict, rate) := handleTextFrame T scene conn.identity conn.rate amb.clock.instant t
      let conn := { conn with rate }
      match verdict with
      | .answer pong => { conn := conn.send (.pong pong) }
      | .refuse reply stop => { conn := conn.goto (.refusing reply stop) }
      | .stop => { conn := conn.goto .closed }
      | .publish patches cause =>
          { conn, effect := some (r, .emit (.handler c) (writes patches) cause) }
      | .ignore => { conn }
  | .binary => { conn := conn.refuse .internal "binary frames forbidden" false }
  | .ping | .pong => { conn }
  | .close => { conn := conn.goto .closed }

/-- The next step of the handler of connection `c`; `none` while it waits. -/
def step (T : TextLayer Text) (inner : ServerInner Text) (c : Nat) (conn : Connection Text)
    (amb : Ambient) : Option (Outcome Text) :=
  match conn.phase with
  | .awaiting => (conn.recvSubscribe T amb).map fun conn => { conn }
  | .resolving sub =>
      match sub.scene.or inner.active with
      | some id => some { conn := conn.goto (.lookingUp sub id) }
      | none => some { conn := conn.deny .sceneNotFound "scene unknown" }
  | .lookingUp sub id =>
      match inner.scene id with
      | some r => some { conn := { conn with current := some r, phase := .checking sub } }
      | none => some { conn := conn.deny .sceneNotFound "scene unknown" }
  | .checking sub => conn.current.map fun r =>
      match (inner.heap r).scene.rejection with
      | some rejection => { conn := conn.deny rejection.code rejection.message }
      | none => { conn := conn.goto (.subscribing sub) }
  | .subscribing sub => conn.current.map fun r =>
      { conn := { conn with
          deltas := (inner.heap r).scene.tx.subscribe, phase := .subscribingEvents sub } }
  | .subscribingEvents sub =>
      some { conn := { conn with events := inner.events.subscribe, phase := afterSubscribing sub } }
  | .comparing since => conn.current.map fun r =>
      if since ≤ (inner.heap r).scene.currentSeq then { conn := conn.goto (.replaying since) }
      else { conn := conn.goto .readingSeq }
  | .replaying since => conn.current.map fun r =>
      let slice := (inner.heap r).scene.replaySince since
      if slice.covered then
        { conn := { conn with
            outbox := conn.outbox ++ slice.records.map fun r => .delta r.frame, phase := .live } }
      else { conn := conn.goto .readingSeq }
  | .readingSeq => conn.current.map fun r =>
      { conn := conn.goto (.readingState (inner.heap r).scene.currentSeq) }
  | .readingState seq => conn.current.map fun r =>
      { conn := (conn.send (snapshotFrame (inner.heap r).scene seq amb.clock)).goto .live }
  | .denying reply => some
      { conn := (conn.send (reply.frame (conn.errorSeq inner) amb.clock)).goto .closed }
  | .live => conn.current.map fun r =>
      match conn.inbox with
      | [] => { conn := conn.goto .pollingEvents }
      | m :: inbox => { conn with inbox }.onMessage T c r (inner.heap r).scene amb m
  | .pollingEvents =>
      match inner.events.recv conn.events with
      | .message (.sceneSwap id) next =>
          some { conn := { conn with events := next, phase := .migrating id } }
      | .lagged _ next => some
          { conn := { conn with events := next }.refuse .internal "server event stream lagged" true }
      | .empty => some { conn := conn.goto .pollingDeltas }
  | .pollingDeltas => conn.current.map fun r =>
      match (inner.heap r).scene.tx.recv conn.deltas with
      | .message p next =>
          { conn := { conn.send (.delta p.frame) with deltas := next, phase := .live } }
      | .lagged .. => { conn := conn.refuse .internal "delta stream lagged" true }
      | .empty => { conn := conn.goto .live }
  | .refusing reply stop => conn.current.map fun _ =>
      { conn := (conn.send (reply.frame (conn.errorSeq inner) amb.clock)).goto
          (if stop then .closed else .live) }
  | .migrating id =>
      match inner.scene id with
      | some r => some { conn := conn.goto (.advancing r) }
      | none => some { conn := conn.goto .live }
  | .advancing r => conn.current.map fun old =>
      { conn := (conn.send (sceneChangedFrame (inner.heap r).scene (inner.heap old).scene.nextSeq
          amb.clock)).goto (.swapReadingSeq r)
        effect := some (old, .change) }
  | .swapReadingSeq r =>
      some { conn := conn.goto (.swapReadingState r (inner.heap r).scene.currentSeq) }
  | .swapReadingState r seq => some
      { conn := (conn.send (snapshotFrame (inner.heap r).scene seq amb.clock)).goto
          (.resubscribing r) }
  | .resubscribing r =>
      some { conn := { conn with
        deltas := (inner.heap r).scene.tx.subscribe, current := some r, phase := .live } }
  | .closed => none

/-- The transitions of a handler, each with its guard and its outcome. -/
inductive Transition (T : TextLayer Text) (inner : ServerInner Text) (c : Nat)
    (conn : Connection Text) (amb : Ambient) : Outcome Text → Prop
  | authenticate {sub : Subscribe} {identity : Identity} {inbox : List (Message Text)}
      (phase : conn.phase = .awaiting) : Transition T inner c conn amb
        { conn := { conn with inbox, identity, phase := .resolving sub } }
  | turnAway {inbox : List (Message Text)} (phase : conn.phase = .awaiting) :
      Transition T inner c conn amb
        { conn := ({ conn with inbox } : Connection Text).deny .authDenied "invalid token" }
  | hangUp {inbox : List (Message Text)} (phase : conn.phase = .awaiting) :
      Transition T inner c conn amb { conn := { conn with inbox }.goto .closed }
  | resolve {sub : Subscribe} {id : SceneId} (phase : conn.phase = .resolving sub) :
      Transition T inner c conn amb { conn := conn.goto (.lookingUp sub id) }
  | notResolved {sub : Subscribe} (phase : conn.phase = .resolving sub) :
      Transition T inner c conn amb { conn := conn.deny .sceneNotFound "scene unknown" }
  | lookUp {sub : Subscribe} {id : SceneId} {r : SceneRef}
      (phase : conn.phase = .lookingUp sub id) (found : inner.scene id = some r) :
      Transition T inner c conn amb
        { conn := { conn with current := some r, phase := .checking sub } }
  | notFound {sub : Subscribe} {id : SceneId} (phase : conn.phase = .lookingUp sub id) :
      Transition T inner c conn amb { conn := conn.deny .sceneNotFound "scene unknown" }
  | reject {sub : Subscribe} {r : SceneRef} {rejection : SceneRejection}
      (phase : conn.phase = .checking sub) (current : conn.current = some r)
      (rejected : (inner.heap r).scene.rejection = some rejection) :
      Transition T inner c conn amb { conn := conn.deny rejection.code rejection.message }
  | accept {sub : Subscribe} {r : SceneRef} (phase : conn.phase = .checking sub)
      (current : conn.current = some r) (sound : (inner.heap r).scene.rejection = none) :
      Transition T inner c conn amb { conn := conn.goto (.subscribing sub) }
  | subscribe {sub : Subscribe} {r : SceneRef} (phase : conn.phase = .subscribing sub)
      (current : conn.current = some r) : Transition T inner c conn amb
        { conn := { conn with
            deltas := (inner.heap r).scene.tx.subscribe, phase := .subscribingEvents sub } }
  | compare {sub : Subscribe} {since : Nat} (phase : conn.phase = .subscribingEvents sub)
      (asked : sub.sinceSequence = some since) (positive : 0 < since) :
      Transition T inner c conn amb
        { conn := { conn with events := inner.events.subscribe, phase := .comparing since } }
  | startAfresh {sub : Subscribe} (phase : conn.phase = .subscribingEvents sub) :
      Transition T inner c conn amb
        { conn := { conn with events := inner.events.subscribe, phase := .readingSeq } }
  | resume {since : Nat} (phase : conn.phase = .comparing since) :
      Transition T inner c conn amb { conn := conn.goto (.replaying since) }
  | ahead {since : Nat} (phase : conn.phase = .comparing since) :
      Transition T inner c conn amb { conn := conn.goto .readingSeq }
  | replay {since : Nat} {r : SceneRef} (phase : conn.phase = .replaying since)
      (current : conn.current = some r)
      (covered : ((inner.heap r).scene.replaySince since).covered = true) :
      Transition T inner c conn amb
        { conn := { conn with
            outbox := conn.outbox ++
              ((inner.heap r).scene.replaySince since).records.map fun r => .delta r.frame
            phase := .live } }
  | notCovered {since : Nat} (phase : conn.phase = .replaying since) :
      Transition T inner c conn amb { conn := conn.goto .readingSeq }
  | readSeq {r : SceneRef} (phase : conn.phase = .readingSeq) (current : conn.current = some r) :
      Transition T inner c conn amb
        { conn := conn.goto (.readingState (inner.heap r).scene.currentSeq) }
  | readState {seq : Nat} {r : SceneRef} (phase : conn.phase = .readingState seq)
      (current : conn.current = some r) : Transition T inner c conn amb
        { conn := (conn.send (snapshotFrame (inner.heap r).scene seq amb.clock)).goto .live }
  | deny {reply : ErrorReply} (phase : conn.phase = .denying reply) :
      Transition T inner c conn amb
        { conn := (conn.send (reply.frame (conn.errorSeq inner) amb.clock)).goto .closed }
  | pollEvents (phase : conn.phase = .live) :
      Transition T inner c conn amb { conn := conn.goto .pollingEvents }
  | message {r : SceneRef} {m : Message Text} {inbox : List (Message Text)}
      (phase : conn.phase = .live) (current : conn.current = some r)
      (first : conn.inbox = m :: inbox) : Transition T inner c conn amb
        ({ conn with inbox }.onMessage T c r (inner.heap r).scene amb m)
  | swap {id : SceneId} {next : Nat} (phase : conn.phase = .pollingEvents)
      (received : inner.events.recv conn.events = .message (.sceneSwap id) next) :
      Transition T inner c conn amb
        { conn := { conn with events := next, phase := .migrating id } }
  | loseEvents {next : Nat} (phase : conn.phase = .pollingEvents) : Transition T inner c conn amb
      { conn := { conn with events := next }.refuse .internal "server event stream lagged" true }
  | pollDeltas (phase : conn.phase = .pollingEvents) :
      Transition T inner c conn amb { conn := conn.goto .pollingDeltas }
  | deliver {r : SceneRef} {p : DeltaPayload} {next : Nat} (phase : conn.phase = .pollingDeltas)
      (current : conn.current = some r)
      (received : (inner.heap r).scene.tx.recv conn.deltas = .message p next) :
      Transition T inner c conn amb
        { conn := { conn.send (.delta p.frame) with deltas := next, phase := .live } }
  | loseDeltas (phase : conn.phase = .pollingDeltas) :
      Transition T inner c conn amb
        { conn := conn.refuse .internal "delta stream lagged" true }
  | pollSocket (phase : conn.phase = .pollingDeltas) :
      Transition T inner c conn amb { conn := conn.goto .live }
  | refuse {reply : ErrorReply} {stop : Bool} {r : SceneRef}
      (phase : conn.phase = .refusing reply stop) (current : conn.current = some r) :
      Transition T inner c conn amb
        { conn := (conn.send (reply.frame (conn.errorSeq inner) amb.clock)).goto
            (if stop then .closed else .live) }
  | migrate {id : SceneId} {r : SceneRef} (phase : conn.phase = .migrating id)
      (found : inner.scene id = some r) :
      Transition T inner c conn amb { conn := conn.goto (.advancing r) }
  | stay {id : SceneId} (phase : conn.phase = .migrating id) (unknown : inner.scene id = none) :
      Transition T inner c conn amb { conn := conn.goto .live }
  | leave {r old : SceneRef} (phase : conn.phase = .advancing r)
      (current : conn.current = some old) : Transition T inner c conn amb
        { conn := (conn.send (sceneChangedFrame (inner.heap r).scene (inner.heap old).scene.nextSeq
            amb.clock)).goto (.swapReadingSeq r)
          effect := some (old, .change) }
  | crossSeq {r : SceneRef} (phase : conn.phase = .swapReadingSeq r) :
      Transition T inner c conn amb
        { conn := conn.goto (.swapReadingState r (inner.heap r).scene.currentSeq) }
  | crossState {r : SceneRef} {seq : Nat} (phase : conn.phase = .swapReadingState r seq) :
      Transition T inner c conn amb
        { conn := (conn.send (snapshotFrame (inner.heap r).scene seq amb.clock)).goto
            (.resubscribing r) }
  | land {r : SceneRef} (phase : conn.phase = .resubscribing r) : Transition T inner c conn amb
      { conn := { conn with
          deltas := (inner.heap r).scene.tx.subscribe, current := some r, phase := .live } }

/-- Every handler step is a transition. -/
theorem transition_of_step {T : TextLayer Text} {inner : ServerInner Text} {c : Nat}
    {conn : Connection Text} {amb : Ambient} {o : Outcome Text}
    (h : conn.step T inner c amb = some o) : Transition T inner c conn amb o := by
  unfold step at h
  split at h
  · next phase =>
    obtain ⟨conn', received, rfl⟩ := Option.map_eq_some_iff.mp h
    unfold recvSubscribe at received
    split at received
    · cases received
    · simp only at received
      split at received
      · split at received
        · split at received <;> cases received
          · exact .authenticate phase
          · exact .turnAway phase
        · cases received
          exact .hangUp phase
      · cases received
        exact .hangUp phase
  · next sub phase =>
    split at h <;> cases h
    · exact .resolve phase
    · exact .notResolved phase
  · next sub id phase =>
    split at h <;> cases h
    · next found => exact .lookUp phase found
    · exact .notFound phase
  · next sub phase =>
    obtain ⟨r, current, rfl⟩ := Option.map_eq_some_iff.mp h
    split
    · next rejected => exact .reject phase current rejected
    · next sound => exact .accept phase current sound
  · next sub phase =>
    obtain ⟨r, current, rfl⟩ := Option.map_eq_some_iff.mp h
    exact .subscribe phase current
  · next sub phase =>
    cases h
    unfold afterSubscribing
    split
    · next since asked =>
      split
      · next positive => exact .compare phase asked positive
      · exact .startAfresh phase
    · exact .startAfresh phase
  · next since phase =>
    obtain ⟨r, current, rfl⟩ := Option.map_eq_some_iff.mp h
    split
    · exact .resume phase
    · exact .ahead phase
  · next since phase =>
    obtain ⟨r, current, rfl⟩ := Option.map_eq_some_iff.mp h
    dsimp only
    split
    · next covered => exact .replay phase current covered
    · exact .notCovered phase
  · next phase =>
    obtain ⟨r, current, rfl⟩ := Option.map_eq_some_iff.mp h
    exact .readSeq phase current
  · next seq phase =>
    obtain ⟨r, current, rfl⟩ := Option.map_eq_some_iff.mp h
    exact .readState phase current
  · next reply phase =>
    cases h
    exact .deny phase
  · next phase =>
    obtain ⟨r, current, rfl⟩ := Option.map_eq_some_iff.mp h
    split
    · exact .pollEvents phase
    · next first => exact .message phase current first
  · next phase =>
    split at h <;> cases h
    · next received => exact .swap phase received
    · exact .loseEvents phase
    · exact .pollDeltas phase
  · next phase =>
    obtain ⟨r, current, rfl⟩ := Option.map_eq_some_iff.mp h
    split
    · next received => exact .deliver phase current received
    · exact .loseDeltas phase
    · exact .pollSocket phase
  · next reply stop phase =>
    obtain ⟨r, current, rfl⟩ := Option.map_eq_some_iff.mp h
    exact .refuse phase current
  · next id phase =>
    split at h <;> cases h
    · next found => exact .migrate phase found
    · next unknown => exact .stay phase unknown
  · next r phase =>
    obtain ⟨old, current, rfl⟩ := Option.map_eq_some_iff.mp h
    exact .leave phase current
  · next r phase =>
    cases h
    exact .crossSeq phase
  · next r seq phase =>
    cases h
    exact .crossState phase
  · next r phase =>
    cases h
    exact .land phase
  · cases h

end Connection

/-- The scene a connection listens to, and how far it has come. -/
inductive Link where
  /-- Not subscribed to a scene yet; nothing was sent. -/
  | detached
  | opening (r : SceneRef)
  | reading (r : SceneRef) (seq : Nat)
  | attached (r : SceneRef)
  | crossing (r : SceneRef)
  | crossingAt (r : SceneRef) (seq : Nat)
  | landing (r : SceneRef)
  | closed
  deriving DecidableEq

def Link.scene : Link → Option SceneRef
  | opening r | reading r _ | attached r | crossing r | crossingAt r _ | landing r => some r
  | detached | closed => none

namespace Connection

def link (conn : Connection Text) : Link :=
  match conn.phase with
  | .awaiting | .resolving _ | .lookingUp .. | .checking _ | .subscribing _ | .denying _ =>
      .detached
  | .subscribingEvents _ | .comparing _ | .replaying _ | .readingSeq =>
      conn.current.elim .detached .opening
  | .readingState seq => conn.current.elim .detached fun r => .reading r seq
  | .live | .pollingEvents | .pollingDeltas | .migrating _ | .advancing _ | .refusing .. =>
      conn.current.elim .detached .attached
  | .swapReadingSeq r => .crossing r
  | .swapReadingState r seq => .crossingAt r seq
  | .resubscribing r => .landing r
  | .closed => .closed

/-- The scene of a link is the current one, or the one a swap leads to. -/
theorem link_scene {conn : Connection Text} {r : SceneRef} (h : conn.link.scene = some r) :
    conn.current = some r ∨ conn.phase.target = some r := by
  unfold link at h
  cases current : conn.current <;> cases phase : conn.phase <;>
    simp_all [Link.scene, Phase.target]

theorem phase_of_closed {conn : Connection Text} (h : conn.link = .closed) :
    conn.phase = .closed := by
  unfold link at h
  cases current : conn.current <;> cases phase : conn.phase <;> simp_all

/-- In the main loop the link is to the current scene. -/
theorem current_of_attached {conn : Connection Text} {r : SceneRef}
    (h : conn.link = .attached r) : conn.current = some r := by
  unfold link at h
  cases current : conn.current <;> cases phase : conn.phase <;> simp_all

/-- What a handler step does to the outbox, to the receiver of deltas and to the
link. -/
inductive Move (inner : ServerInner Text) (c : Nat) (conn : Connection Text) :
    Outcome Text → Prop
  | still {o : Outcome Text} (link : o.conn.link = conn.link)
      (outbox : o.conn.outbox = conn.outbox) (deltas : o.conn.deltas = conn.deltas)
      (effect : ∀ r a, o.effect = some (r, a) → conn.link = .attached r ∧
        ∃ pairs cause, a = .emit (.handler c) pairs cause) : Move inner c conn o
  | pong {o : Outcome Text} {r : SceneRef} (before : conn.link = .attached r)
      (link : o.conn.link = .attached r) (f : Pong)
      (outbox : o.conn.outbox = conn.outbox ++ [.pong f])
      (deltas : o.conn.deltas = conn.deltas) (effect : o.effect = none) : Move inner c conn o
  | close {o : Outcome Text} (link : o.conn.link = .closed)
      (outbox : o.conn.outbox = conn.outbox) (effect : o.effect = none)
      (current : o.conn.current = conn.current) : Move inner c conn o
  | deny {o : Outcome Text} (before : conn.link = .detached) (link : o.conn.link = .closed)
      (f : ErrorFrame) (outbox : o.conn.outbox = conn.outbox ++ [.error f])
      (effect : o.effect = none) : Move inner c conn o
  | refuse {o : Outcome Text} {r : SceneRef} {reply : ErrorReply} {stop : Bool}
      (before : conn.link = .attached r) (phase : conn.phase = .refusing reply stop)
      (link : o.conn.link = if stop then .closed else .attached r) (clock : Clock)
      (outbox : o.conn.outbox =
        conn.outbox ++ [reply.frame (inner.heap r).scene.currentSeq clock])
      (deltas : o.conn.deltas = conn.deltas) (effect : o.effect = none)
      (current : o.conn.current = conn.current) : Move inner c conn o
  | subscribe {o : Outcome Text} {r : SceneRef} (before : conn.link = .detached)
      (link : o.conn.link = .opening r) (outbox : o.conn.outbox = conn.outbox)
      (deltas : o.conn.deltas = (inner.heap r).scene.tx.sent.length)
      (effect : o.effect = none) : Move inner c conn o
  | resume {o : Outcome Text} {r : SceneRef} {since : Nat} (before : conn.link = .opening r)
      (phase : conn.phase = .replaying since) (link : o.conn.link = .attached r)
      (covered : ((inner.heap r).scene.replaySince since).covered = true)
      (outbox : o.conn.outbox = conn.outbox ++
        ((inner.heap r).scene.replaySince since).records.map fun r => .delta r.frame)
      (deltas : o.conn.deltas = conn.deltas) (effect : o.effect = none) : Move inner c conn o
  | readSeq {o : Outcome Text} {r : SceneRef} (before : conn.link = .opening r)
      (link : o.conn.link = .reading r (inner.heap r).scene.currentSeq)
      (outbox : o.conn.outbox = conn.outbox) (deltas : o.conn.deltas = conn.deltas)
      (effect : o.effect = none) : Move inner c conn o
  | snapshot {o : Outcome Text} {r : SceneRef} {seq : Nat} (before : conn.link = .reading r seq)
      (link : o.conn.link = .attached r) (clock : Clock)
      (outbox : o.conn.outbox =
        conn.outbox ++ [snapshotFrame (inner.heap r).scene seq clock])
      (deltas : o.conn.deltas = conn.deltas) (effect : o.effect = none) : Move inner c conn o
  | deliver {o : Outcome Text} {r : SceneRef} {p : DeltaPayload} {next : Nat}
      (before : conn.link = .attached r) (link : o.conn.link = .attached r)
      (received : (inner.heap r).scene.tx.recv conn.deltas = .message p next)
      (outbox : o.conn.outbox = conn.outbox ++ [.delta p.frame])
      (deltas : o.conn.deltas = next) (effect : o.effect = none) : Move inner c conn o
  | leave {o : Outcome Text} {r target : SceneRef} (before : conn.link = .attached r)
      (phase : conn.phase = .advancing target) (link : o.conn.link = .crossing target)
      (clock : Clock)
      (outbox : o.conn.outbox = conn.outbox ++
        [sceneChangedFrame (inner.heap target).scene (inner.heap r).scene.nextSeq clock])
      (effect : o.effect = some (r, .change)) : Move inner c conn o
  | crossSeq {o : Outcome Text} {r : SceneRef} (before : conn.link = .crossing r)
      (link : o.conn.link = .crossingAt r (inner.heap r).scene.currentSeq)
      (outbox : o.conn.outbox = conn.outbox) (effect : o.effect = none) : Move inner c conn o
  | crossSnapshot {o : Outcome Text} {r : SceneRef} {seq : Nat}
      (before : conn.link = .crossingAt r seq) (link : o.conn.link = .landing r) (clock : Clock)
      (outbox : o.conn.outbox =
        conn.outbox ++ [snapshotFrame (inner.heap r).scene seq clock])
      (effect : o.effect = none) : Move inner c conn o
  | land {o : Outcome Text} {r : SceneRef} (before : conn.link = .landing r)
      (phase : conn.phase = .resubscribing r) (link : o.conn.link = .attached r)
      (outbox : o.conn.outbox = conn.outbox)
      (deltas : o.conn.deltas = (inner.heap r).scene.tx.sent.length)
      (effect : o.effect = none) : Move inner c conn o

/-- A message of the main loop leaves the link, or ends the connection. -/
theorem move_onMessage {T : TextLayer Text} {inner : ServerInner Text} {c : Nat} {r : SceneRef}
    {conn : Connection Text} {amb : Ambient} (scene : Scene Text) (m : Message Text)
    (inbox : List (Message Text)) (phase : conn.phase = .live) (current : conn.current = some r) :
    Move inner c conn ({ conn with inbox }.onMessage T c r scene amb m) := by
  have before : conn.link = .attached r := by simp [link, phase, current]
  cases m with
  | text t =>
      rw [onMessage]
      rcases handleTextFrame T scene conn.identity conn.rate amb.clock.instant t with ⟨v, rate⟩
      cases v with
      | answer f => exact .pong before (by simp [link, send, phase, current]) f rfl rfl rfl
      | refuse reply stop =>
          exact .still (by simp [link, goto, phase, current]) rfl rfl (by simp)
      | stop => exact .close rfl rfl rfl rfl
      | publish patches cause =>
          refine .still (by simp [link, phase]) rfl rfl ?_
          rintro r' a effect
          cases effect
          exact ⟨before, _, _, rfl⟩
      | ignore => exact .still (by simp [link, phase]) rfl rfl (by simp)
  | binary =>
      exact .still (by simp [onMessage, Connection.refuse, link, goto, phase, current]) rfl rfl
        (by simp [onMessage])
  | ping => exact .still (by simp [onMessage, link, phase]) rfl rfl (by simp [onMessage])
  | pong => exact .still (by simp [onMessage, link, phase]) rfl rfl (by simp [onMessage])
  | close => exact .close rfl rfl rfl rfl

/-- Every handler step is one of the moves. -/
theorem move_of_step {T : TextLayer Text} {inner : ServerInner Text} {c : Nat}
    {conn : Connection Text} {amb : Ambient} {o : Outcome Text}
    (h : conn.step T inner c amb = some o) : Move inner c conn o := by
  cases transition_of_step h with
  | authenticate phase | turnAway phase | resolve phase | notResolved phase | lookUp phase
  | notFound phase | reject phase | accept phase | compare phase | startAfresh phase
  | resume phase | ahead phase | notCovered phase | pollEvents phase | swap phase
  | loseEvents phase | pollDeltas phase | loseDeltas phase | pollSocket phase | migrate phase
  | stay phase =>
      exact .still (by simp [link, phase, Connection.deny, Connection.refuse, goto]) rfl rfl
        (by simp)
  | hangUp phase => exact .close rfl rfl rfl rfl
  | subscribe phase current =>
      exact .subscribe (by simp [link, phase]) (by simp [link, current]) rfl rfl rfl
  | replay phase current covered =>
      exact .resume (by simp [link, phase, current]) phase (by simp [link, current]) covered rfl
        rfl rfl
  | @readSeq r phase current =>
      exact .readSeq (r := r) (by simp [link, phase, current]) (by simp [link, goto, current]) rfl
        rfl rfl
  | readState phase current =>
      exact .snapshot (by simp [link, phase, current]) (by simp [link, goto, send, current])
        amb.clock rfl rfl rfl
  | deny phase => exact .deny (by simp [link, phase]) rfl _ rfl rfl
  | message phase current => exact move_onMessage _ _ _ phase current
  | deliver phase current received =>
      exact .deliver (by simp [link, phase, current]) (by simp [link, send, current]) received rfl
        rfl rfl
  | @refuse reply stop r phase current =>
      refine .refuse (r := r) (by simp [link, phase, current]) phase ?_ amb.clock ?_ rfl rfl rfl
      · cases stop <;> simp [link, goto, send, current]
      · simp [goto, send, errorSeq, current]
  | leave phase current => exact .leave (by simp [link, phase, current]) phase rfl amb.clock rfl rfl
  | crossSeq phase => exact .crossSeq (by simp [link, phase]) rfl rfl rfl
  | crossState phase => exact .crossSnapshot (by simp [link, phase]) rfl amb.clock rfl rfl
  | land phase => exact .land (by simp [link, phase]) phase rfl rfl rfl rfl

/-- A counter is advanced without an emission by a connection that leaves. -/
theorem leaves_of_change {T : TextLayer Text} {inner : ServerInner Text} {c : Nat}
    {conn : Connection Text} {amb : Ambient} {o : Outcome Text} {r : SceneRef}
    (h : conn.step T inner c amb = some o) (asked : o.effect = some (r, .change)) :
    ∃ target, conn.phase = .advancing target ∧ conn.current = some r := by
  cases move_of_step h with
  | leave before phase _ _ _ effect =>
      obtain ⟨rfl, _⟩ := Prod.mk.inj (Option.some.inj (effect.symm.trans asked))
      exact ⟨_, phase, current_of_attached before⟩
  | still _ _ _ effect =>
      obtain ⟨_, _, _, emission⟩ := effect r _ asked
      cases emission
  | _ => simp_all

/-- A handler takes no step of an emission in progress. -/
theorem not_progress_of_step {T : TextLayer Text} {inner : ServerInner Text} {c : Nat}
    {conn : Connection Text} {amb : Ambient} {o : Outcome Text} {r : SceneRef} {caller : Caller}
    (h : conn.step T inner c amb = some o) : o.effect ≠ some (r, .progress caller) := by
  intro asked
  cases move_of_step h with
  | leave _ _ _ _ _ effect => cases effect.symm.trans asked
  | still _ _ _ effect =>
      obtain ⟨_, _, _, emission⟩ := effect r _ asked
      cases emission
  | _ => simp_all

/-- A message of the main loop leaves the scene and starts no swap. -/
theorem onMessage_refs {T : TextLayer Text} {c : Nat} {r : SceneRef} {scene : Scene Text}
    {conn : Connection Text} {amb : Ambient} (m : Message Text) (phase : conn.phase = .live) :
    (conn.onMessage T c r scene amb m).conn.current = conn.current ∧
      (conn.onMessage T c r scene amb m).conn.phase.target = none := by
  cases m with
  | text t =>
      rw [onMessage]
      rcases handleTextFrame T scene conn.identity conn.rate amb.clock.instant t with ⟨v, rate⟩
      cases v <;> simp [send, goto, phase, Phase.target]
  | _ => simp [onMessage, Connection.refuse, goto, phase, Phase.target]

/-- A handler step only passes references on, or looks them up. -/
theorem refs_of_step {T : TextLayer Text} {inner : ServerInner Text} {c : Nat}
    {conn : Connection Text} {amb : Ambient} {o : Outcome Text}
    (h : conn.step T inner c amb = some o) :
    (∀ r, o.conn.current = some r →
        conn.current = some r ∨ conn.phase.target = some r ∨ ∃ id, inner.scene id = some r) ∧
      ∀ r, o.conn.phase.target = some r →
        conn.phase.target = some r ∨ ∃ id, inner.scene id = some r := by
  have kept {conn' : Connection Text} (current : conn'.current = conn.current)
      (target : conn'.phase.target = none) :
      (∀ r, conn'.current = some r →
          conn.current = some r ∨ conn.phase.target = some r ∨ ∃ id, inner.scene id = some r) ∧
        ∀ r, conn'.phase.target = some r →
          conn.phase.target = some r ∨ ∃ id, inner.scene id = some r := by
    refine ⟨fun r h => .inl (current ▸ h), fun r h => ?_⟩
    rw [target] at h
    cases h
  cases transition_of_step h with
  | @lookUp sub id r phase found =>
      refine ⟨fun q current => ?_, fun q target => by cases target⟩
      cases current
      exact .inr (.inr ⟨id, found⟩)
  | @message r m inbox phase _ _ =>
      have refs := @onMessage_refs _ T c r (inner.heap r).scene { conn with inbox } amb m phase
      exact kept refs.1 refs.2
  | @refuse reply stop r phase _ => cases stop <;> exact kept rfl rfl
  | @migrate id r phase found =>
      refine ⟨fun q current => .inl current, fun q target => ?_⟩
      cases target
      exact .inr ⟨id, found⟩
  | leave phase | crossSeq phase | crossState phase =>
      rw [phase]
      exact ⟨fun q current => .inl current, fun q h => .inl h⟩
  | land phase =>
      rw [phase]
      exact ⟨fun q current => .inr (.inl current), fun q h => by cases h⟩
  | _ => exact kept rfl rfl

end Connection
end Lumencast.Server
