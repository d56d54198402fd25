import Lumencast.Client.Manager
import Lumencast.Protocol.Codec
import Lumencast.Foundation.Run

/-!
# The client manager

The background task of the client: it connects with retries, drives the connection, and
swaps it for another one when the token is rotated. Its surroundings are the labels of the
machine: how an attempt to connect ends, what the command channel yields, what the socket
yields, and when a backoff has elapsed.

The journal records the attempts, the commands that were taken and the replies, together
with what the manager holds when it takes a command and when it replies. No step reads it.
-/

namespace Lumencast.Client

open Foundation Protocol

variable {Text : Type}

inductive ConnectError where
  | url (message : String)
  | handshake (message : String)
  | encode (e : LumencastError)
  | closed
  | serverError (message : String)
  | unexpectedFrame (frame : ServerFrame)
  deriving DecidableEq

/-- A socket whose first frame was a snapshot. -/
structure Connection where
  socket : Nat
  snapshot : Snapshot
  deriving DecidableEq

/-- What the client handle asks for. `reply` is the channel of the answer. -/
inductive Command where
  | setToken (token : Token) (reply : Nat)
  | disconnect
  deriving DecidableEq

inductive Status where
  | disconnected
  | connecting
  | live
  deriving DecidableEq, Repr

/-- What the manager broadcasts. -/
inductive Notice where
  | status (s : Status)
  | event (e : Event)
  deriving DecidableEq

/-- What the socket of a live connection yields. -/
inductive Incoming (Text : Type) where
  | text (t : Text)
  | ping
  | pong
  | close
  | binary
  | frame
  | ended
  | failed

structure ManagerInit where
  url : String
  token : Token
  scene : Option SceneId := none
  session : Option SessionId := none
  maxReconnectAttempts : Option Nat := none
  deriving DecidableEq, Repr

/-- The connection that is driven, and its tracker. -/
structure Live where
  conn : Connection
  tracker : SequenceTracker
  deriving DecidableEq

/-- The tracker starts at the snapshot. -/
def Live.of (conn : Connection) : Live := { conn, tracker := (Session.open_ conn.snapshot).tracker }

/-- What a rotation can change. -/
structure Holding where
  live : Option Live
  token : Token
  deriving DecidableEq

inductive Entry where
  /-- A `SetToken` command is taken from the channel. -/
  | taken (token : Token) (reply : Nat) (holding : Holding)
  /-- An attempt to connect begins. -/
  | opening (url : String) (token : Token) (scene : Option SceneId) (session : Option SessionId)
  | opened (result : Except ConnectError Connection)
  | answered (reply : Nat) (outcome : Except ConnectError Unit) (holding : Holding)
  deriving DecidableEq

inductive Phase where
  /-- Attempt number `attempt` is under way. -/
  | connecting (attempt : Nat)
  /-- The backoff after attempt number `attempt`. -/
  | waiting (attempt : Nat)
  | driving (live : Live)
  /-- The parallel connection of a rotation is under way. -/
  | swapping (live : Live) (token : Token) (reply : Nat)
  | finished
  deriving DecidableEq

structure Manager where
  init : ManagerInit
  token : Token
  phase : Phase
  notices : List Notice := []
  journal : List Entry := []
  deriving DecidableEq

inductive Label (Text : Type) where
  | opened (result : Except ConnectError Connection)
  | elapsed
  /-- The command channel yields a command, or is closed. -/
  | command (cmd : Option Command)
  | incoming (m : Incoming Text)

/-- The rotation that a label asks for. -/
def Label.rotation : Label Text → Option (Token × Nat)
  | .command (some (.setToken token reply)) => some (token, reply)
  | .command _ | .opened _ | .elapsed | .incoming _ => none

/-- The rotation that an entry records. -/
def Entry.rotation : Entry → Option (Token × Nat)
  | .taken token reply _ => some (token, reply)
  | .opening .. | .opened _ | .answered .. => none

/-- The delay before an attempt in milliseconds, without jitter. The jitter takes at most
a quarter of it away. -/
def backoffForAttempt : Nat → Nat
  | 0 | 1 => 0
  | 2 => 500
  | 3 => 1000
  | 4 => 2000
  | 5 => 4000
  | 6 => 8000
  | 7 => 15000
  | 8 => 30000
  | _ => 60000

namespace Manager

def notify (m : Manager) (notices : List Notice) : Manager :=
  { m with notices := m.notices ++ notices }

def log (m : Manager) (entries : List Entry) : Manager :=
  { m with journal := m.journal ++ entries }

def goto (m : Manager) (phase : Phase) : Manager := { m with phase }

/-- An attempt with the given token. -/
def opening (m : Manager) (token : Token) : Entry :=
  .opening m.init.url token m.init.scene m.init.session

def holding (m : Manager) : Holding where
  live :=
    match m.phase with
    | .driving live | .swapping live .. => some live
    | .connecting _ | .waiting _ | .finished => none
  token := m.token

/-- The head of the loop of `connect_with_retry`. -/
def connect (m : Manager) (attempt : Nat) : Manager :=
  ((m.notify [.status .connecting]).log [m.opening m.token]).goto (.connecting attempt)

def finish (m : Manager) : Manager :=
  (m.notify [.status .disconnected]).goto .finished

/-- What follows a failed attempt: the end, a backoff, or the next attempt. -/
def retry (m : Manager) (attempt : Nat) : Manager :=
  if m.init.maxReconnectAttempts.any (· ≤ attempt) then
    (m.notify [.status .disconnected]).finish
  else if 0 < backoffForAttempt (attempt + 1) then m.goto (.waiting attempt)
  else m.connect (attempt + 1)

/-- An attempt of `connect_with_retry` ends. -/
def connected (m : Manager) (attempt : Nat) (result : Except ConnectError Connection) : Manager :=
  match result with
  | .ok conn =>
      ((m.log [.opened (.ok conn)]).notify
        [.status .live, .event (.snapshot conn.snapshot)]).goto (.driving (.of conn))
  | .error e => (m.log [.opened (.error e)]).retry attempt

/-- The parallel connection of `swap_token` ends. -/
def swapped (m : Manager) (live : Live) (token : Token) (reply : Nat)
    (result : Except ConnectError Connection) : Manager :=
  let m := m.log [.opened result]
  match result with
  | .ok conn =>
      let m := ({ m with token }.notify [.event (.snapshot conn.snapshot)]).goto
        (.driving (.of conn))
      m.log [.answered reply (.ok ()) m.holding]
  | .error e =>
      let m := m.goto (.driving live)
      m.log [.answered reply (.error e) m.holding]

/-- One message of `drive`. -/
def receive (T : TextLayer Text) (m : Manager) (live : Live) : Incoming Text → Manager
  | .text t =>
      match decodeServer T t with
      | .ok frame =>
          match handleFrame live.tracker frame with
          | .ok (tracker, events) =>
              (m.notify (events.map .event)).goto (.driving { live with tracker })
          | .error _ => m.connect 1
      | .error _ => m.connect 1
  | .ping | .pong => m
  | .close | .binary | .frame | .ended | .failed => m.connect 1

/-- One command, or the end of the channel. The retry loop goes on after any command but
`Disconnect`, without a reply. -/
def obey (m : Manager) (cmd : Option Command) : Option Manager :=
  match m.phase with
  | .waiting attempt =>
      match cmd with
      | none | some .disconnect => some m.finish
      | some (.setToken token reply) =>
          some ((m.log [.taken token reply m.holding]).connect (attempt + 1))
  | .driving live =>
      match cmd with
      | none | some .disconnect => some m.finish
      | some (.setToken token reply) => some
          ((m.log [.taken token reply m.holding, m.opening token]).goto
            (.swapping live token reply))
  | .connecting _ | .swapping .. | .finished => none

def step (T : TextLayer Text) (m : Manager) : Label Text → Option Manager
  | .opened result =>
      match m.phase with
      | .connecting attempt => some (m.connected attempt result)
      | .swapping live token reply => some (m.swapped live token reply result)
      | .waiting _ | .driving _ | .finished => none
  | .elapsed =>
      match m.phase with
      | .waiting attempt => some (m.connect (attempt + 1))
      | .connecting _ | .driving _ | .swapping .. | .finished => none
  | .command cmd => m.obey cmd
  | .incoming i =>
      match m.phase with
      | .driving live => some (m.receive T live i)
      | .connecting _ | .waiting _ | .swapping .. | .finished => none

def start (init : ManagerInit) : Manager :=
  { init, token := init.token, phase := .finished : Manager }.connect 1

/-- No rotation is under way. -/
def Idle (m : Manager) : Prop := ∀ live token reply, m.phase ≠ .swapping live token reply

/-- What one step does to the journal and to the token: the retry loop begins or ends an
attempt, a command is dropped or taken, or a rotation ends. -/
inductive Move (m : Manager) (label : Label Text) : Manager → Prop
  | loop {m' : Manager} (entries : List Entry) (other : label.rotation = none) (idle : m.Idle)
      (init : m'.init = m.init)
      (journal : m'.journal = m.journal ++ entries)
      (own : ∀ e ∈ entries, e = m.opening m.token ∨ ∃ result, e = .opened result)
      (token : m'.token = m.token) (settled : m'.Idle) : Move m label m'
  | dropped {m' : Manager} (new : Token) (reply attempt : Nat) (phase : m.phase = .waiting attempt)
      (command : label = .command (some (.setToken new reply))) (init : m'.init = m.init)
      (journal : m'.journal = m.journal ++ [.taken new reply m.holding, m.opening m.token]) :
      Move m label m'
  | taken {m' : Manager} (live : Live) (new : Token) (reply : Nat) (phase : m.phase = .driving live)
      (command : label = .command (some (.setToken new reply))) (init : m'.init = m.init)
      (journal : m'.journal = m.journal ++ [.taken new reply m.holding, m.opening new])
      (token : m'.token = m.token) (next : m'.phase = .swapping live new reply) : Move m label m'
  | accepted {m' : Manager} (live : Live) (new : Token) (reply : Nat) (conn : Connection)
      (phase : m.phase = .swapping live new reply) (other : label.rotation = none)
      (init : m'.init = m.init)
      (journal : m'.journal = m.journal ++ [.opened (.ok conn), .answered reply (.ok ())
        { live := some (.of conn), token := new }])
      (token : m'.token = new) (settled : m'.Idle) : Move m label m'
  | refused {m' : Manager} (live : Live) (new : Token) (reply : Nat) (e : ConnectError)
      (phase : m.phase = .swapping live new reply) (other : label.rotation = none)
      (init : m'.init = m.init)
      (journal : m'.journal = m.journal ++ [.opened (.error e), .answered reply (.error e)
        { live := some live, token := m.token }])
      (token : m'.token = m.token) (settled : m'.Idle) : Move m label m'

/-- The commands that are taken are recorded. -/
theorem Move.rotations {m m' : Manager} {label : Label Text} (move : Move m label m') :
    m'.journal.filterMap Entry.rotation =
      m.journal.filterMap Entry.rotation ++ label.rotation.toList := by
  cases move with
  | loop entries other _ _ journal own =>
      have none_ : entries.filterMap Entry.rotation = [] := by
        refine List.filterMap_eq_nil_iff.mpr fun e member => ?_
        rcases own e member with rfl | ⟨result, rfl⟩ <;> rfl
      rw [journal, List.filterMap_append, none_, other]
      rfl
  | dropped _ _ _ _ command _ journal | taken _ _ _ _ command _ journal =>
      rw [journal, List.filterMap_append, command]
      rfl
  | accepted _ _ _ _ _ other _ journal | refused _ _ _ _ _ other _ journal =>
      rw [journal, List.filterMap_append, other]
      rfl

theorem idle_of_driving {m : Manager} {live : Live} (phase : m.phase = .driving live) : m.Idle := by
  simp [Idle, phase]

theorem idle_of_waiting {m : Manager} {attempt : Nat} (phase : m.phase = .waiting attempt) :
    m.Idle := by
  simp [Idle, phase]

/-- The manager goes on without an entry. -/
theorem Move.still {m m' : Manager} {label : Label Text} (other : label.rotation = none)
    (idle : m.Idle) (init : m'.init = m.init) (journal : m'.journal = m.journal)
    (token : m'.token = m.token) (settled : m'.Idle) : Move m label m' :=
  .loop [] other idle init (by rw [journal, List.append_nil])
    (fun _ member => absurd member List.not_mem_nil) token settled

/-- A connection is lost, or the next attempt of the retry loop begins. -/
theorem Move.connect {m : Manager} {label : Label Text} (other : label.rotation = none)
    (idle : m.Idle) (attempt : Nat) : Move m label (m.connect attempt) :=
  .loop [m.opening m.token] other idle rfl rfl
    (fun _ member => .inl (List.mem_singleton.mp member)) rfl
    nofun

theorem retry_cases (m : Manager) (attempt : Nat) :
    ∃ entries, (m.retry attempt).init = m.init ∧
      (m.retry attempt).journal = m.journal ++ entries ∧
      (∀ e ∈ entries, e = m.opening m.token) ∧ (m.retry attempt).token = m.token ∧
      (m.retry attempt).Idle := by
  unfold retry
  split
  · exact ⟨[], rfl, (List.append_nil _).symm, by simp, rfl, nofun⟩
  · split
    · exact ⟨[], rfl, (List.append_nil _).symm, by simp, rfl, nofun⟩
    · exact ⟨[m.opening m.token], rfl, rfl, by simp, rfl, nofun⟩

theorem move_connected {m : Manager} {attempt : Nat} (phase : m.phase = .connecting attempt)
    (result : Except ConnectError Connection) :
    Move m (.opened result : Label Text) (m.connected attempt result) := by
  have idle : m.Idle := by simp [Idle, phase]
  cases result with
  | ok conn =>
      refine .loop [.opened (.ok conn)] rfl idle rfl rfl (fun e member => ?_) rfl nofun
      exact .inr ⟨_, List.mem_singleton.mp member⟩
  | error e =>
      obtain ⟨entries, init, journal, own, token, settled⟩ :=
        (m.log [.opened (.error e)]).retry_cases attempt
      refine .loop (.opened (.error e) :: entries) rfl idle init ?_ (fun f member => ?_) token
        settled
      · exact journal.trans (List.append_assoc ..)
      · rcases List.mem_cons.mp member with rfl | later
        · exact .inr ⟨_, rfl⟩
        · exact .inl (own f later)

theorem move_swapped {m : Manager} {live : Live} {token : Token} {reply : Nat}
    (phase : m.phase = .swapping live token reply) (result : Except ConnectError Connection) :
    Move m (.opened result : Label Text) (m.swapped live token reply result) := by
  cases result with
  | ok conn =>
      refine .accepted live token reply conn phase rfl rfl ?_ rfl nofun
      simp [swapped, log, notify, goto, holding]
  | error e =>
      refine .refused live token reply e phase rfl rfl ?_ rfl nofun
      simp [swapped, log, goto, holding]

theorem move_receive {T : TextLayer Text} {m : Manager} {live : Live}
    (phase : m.phase = .driving live) (i : Incoming Text) :
    Move m (.incoming i) (m.receive T live i) := by
  have idle := idle_of_driving phase
  cases i with
  | text t =>
      simp only [receive]
      split
      · split
        · exact .still rfl idle rfl rfl rfl nofun
        · exact .connect rfl idle 1
      · exact .connect rfl idle 1
  | ping | pong => exact .still rfl idle rfl rfl rfl idle
  | close | binary | frame | ended | failed => exact .connect rfl idle 1

theorem move_obey {m m' : Manager} {cmd : Option Command} (h : m.obey cmd = some m') :
    Move m (.command cmd : Label Text) m' := by
  unfold obey at h
  cases phase : m.phase with
  | waiting attempt =>
      have idle := idle_of_waiting phase
      simp only [phase] at h
      split at h
      · cases h
        exact .still rfl idle rfl rfl rfl nofun
      · cases h
        exact .still rfl idle rfl rfl rfl nofun
      · next token reply =>
        cases h
        exact .dropped token reply attempt phase rfl rfl (List.append_assoc ..)
  | driving live =>
      have idle := idle_of_driving phase
      simp only [phase] at h
      split at h
      · cases h
        exact .still rfl idle rfl rfl rfl nofun
      · cases h
        exact .still rfl idle rfl rfl rfl nofun
      · next token reply =>
        cases h
        exact .taken live token reply phase rfl rfl rfl rfl rfl
  | connecting | swapping | finished =>
      rw [phase] at h
      cases h

/-- Every step is one of the moves. -/
theorem move_of_step {T : TextLayer Text} {m m' : Manager} {label : Label Text}
    (h : m.step T label = some m') : Move m label m' := by
  cases label with
  | opened result =>
      cases phase : m.phase with
      | connecting attempt =>
          simp only [step, phase, Option.some.injEq] at h
          exact h ▸ move_connected phase result
      | swapping live token reply =>
          simp only [step, phase, Option.some.injEq] at h
          exact h ▸ move_swapped phase result
      | waiting | driving | finished => simp [step, phase] at h
  | elapsed =>
      cases phase : m.phase with
      | waiting attempt =>
          simp only [step, phase, Option.some.injEq] at h
          exact h ▸ .connect rfl (idle_of_waiting phase) _
      | connecting | driving | swapping | finished => simp [step, phase] at h
  | command cmd => exact move_obey h
  | incoming i =>
      cases phase : m.phase with
      | driving live =>
          simp only [step, phase, Option.some.injEq] at h
          exact h ▸ move_receive phase i
      | connecting | waiting | swapping | finished => simp [step, phase] at h

/-- Every command that a run takes is recorded. -/
theorem rotations_of_run {T : TextLayer Text} {m stop : Manager} {schedule : List (Label Text)}
    (reach : run (step T) m schedule = some stop) :
    stop.journal.filterMap Entry.rotation =
      m.journal.filterMap Entry.rotation ++ schedule.filterMap Label.rotation := by
  induction schedule generalizing m with
  | nil =>
      cases reach
      rw [List.filterMap_nil, List.append_nil]
  | cons label schedule ih =>
      obtain ⟨m', first, rest⟩ := run_cons_eq_some.mp reach
      rw [ih rest, (move_of_step first).rotations, List.append_assoc]
      cases asked : label.rotation <;> simp [asked]

end Manager
end Lumencast.Client
