import Lumencast.Client.Lifecycle

/-!
# Opening a connection

The client sends its subscribe frame and awaits the first frame of the server, which is to be
a snapshot. Then the manager drives the connection on the frames that follow.

`awaitSnapshot` is the loop of `open`. On a socket that carries the texts of frames among pings
and pongs, `keepsUp_of_carries` relates the manager to the frame dispatch alone: what it
notifies of are the events of the dispatch, and it reconnects when the dispatch finds a gap and
for no other reason.
-/

namespace Lumencast.Client

open Foundation Protocol

variable {Text : Type}

/-- The messages of the WebSocket library that `open` passes on. -/
structure SocketErrors where
  /-- The socket cannot be read. -/
  failed : String := ""
  /-- `ResetWithoutClosingHandshake`. -/
  reset : String := "WebSocket protocol error: Connection reset without closing handshake"

/-- What `open` makes of the first frame, with what is left to read. -/
def onFirst (rest : List (Incoming Text)) :
    ServerFrame → Except ConnectError (Snapshot × List (Incoming Text))
  | .snapshot s => .ok (s, rest)
  | .error e => .error (.serverError (e.code.asWireStr ++ ": " ++ e.message))
  | other => .error (.unexpectedFrame other)

/-- The loop of `Connection::open`: the snapshot and what is left to read, or why there is
none; no result while it waits. -/
def awaitSnapshot (T : TextLayer Text) (errors : SocketErrors) :
    List (Incoming Text) → Option (Except ConnectError (Snapshot × List (Incoming Text)))
  | [] => none
  | .text t :: rest =>
      match decodeServer T t with
      | .error e => some (.error (.encode e))
      | .ok frame => some (onFirst rest frame)
  | .ping :: rest | .pong :: rest => awaitSnapshot T errors rest
  | .close :: _ | .ended :: _ => some (.error .closed)
  | .binary :: _ | .frame :: _ => some (.error (.handshake errors.reset))
  | .failed :: _ => some (.error (.handshake errors.failed))

/-- The socket yields one text for each of the frames, among pings and pongs. -/
inductive Carries (reads : Text → ServerFrame → Prop) :
    List (Incoming Text) → List ServerFrame → Prop
  | nil : Carries reads [] []
  | ping {ins : List (Incoming Text)} {frames : List ServerFrame}
      (rest : Carries reads ins frames) : Carries reads (.ping :: ins) frames
  | pong {ins : List (Incoming Text)} {frames : List ServerFrame}
      (rest : Carries reads ins frames) : Carries reads (.pong :: ins) frames
  | text {t : Text} {f : ServerFrame} {ins : List (Incoming Text)} {frames : List ServerFrame}
      (read : reads t f) (rest : Carries reads ins frames) :
      Carries reads (.text t :: ins) (f :: frames)

/-- A text that is decoded to a frame. -/
def DecodesTo (T : TextLayer Text) (t : Text) (f : ServerFrame) : Prop := decodeServer T t = .ok f

namespace Carries

variable {T : TextLayer Text} {ins : List (Incoming Text)} {frames : List ServerFrame}

theorem mono {reads reads' : Text → ServerFrame → Prop}
    (weaker : ∀ f ∈ frames, ∀ t, reads t f → reads' t f) (carries : Carries reads ins frames) :
    Carries reads' ins frames := by
  induction carries with
  | nil => exact .nil
  | ping _ ih => exact .ping (ih weaker)
  | pong _ ih => exact .pong (ih weaker)
  | @text t f _ _ read _ ih =>
      exact .text (weaker f List.mem_cons_self t read)
        (ih fun g member => weaker g (List.mem_cons_of_mem f member))

/-- The client waits until it has a frame. -/
theorem awaits {errors : SocketErrors} (carries : Carries (DecodesTo T) ins []) :
    awaitSnapshot T errors ins = none := by
  generalize none_ : ([] : List ServerFrame) = frames at carries
  induction carries with
  | nil => rfl
  | ping _ ih | pong _ ih => exact ih none_
  | text => cases none_

/-- The first frame decides. -/
theorem opens {errors : SocketErrors} {f : ServerFrame} {later : List ServerFrame}
    (carries : Carries (DecodesTo T) ins (f :: later)) :
    ∃ rest, Carries (DecodesTo T) rest later ∧
      awaitSnapshot T errors ins = some (onFirst rest f) := by
  generalize all : f :: later = frames at carries
  induction carries with
  | nil => cases all
  | ping _ ih | pong _ ih => exact ih all
  | @text t _ ins _ read rest _ =>
      cases all
      have read : decodeServer T t = .ok f := read
      exact ⟨ins, rest, by rw [awaitSnapshot, read]⟩

end Carries

/-! ## Driving -/

/-- A session that found a gap reads no further frame. -/
theorem Session.foldl_of_reconnecting {session : Session} (ended : session.reconnecting = true)
    (frames : List ServerFrame) : frames.foldl receive session = session := by
  induction frames with
  | nil => rfl
  | cons f frames ih => rw [List.foldl_cons, receive, if_pos ended, ih]

/-- The manager goes along with a dispatch that leads from one session to another: it reads
everything and drives on, or it reads up to the gap and reconnects. -/
def KeepsUp (T : TextLayer Text) (m : Manager) (live : Live) (ins : List (Incoming Text))
    (session after : Session) : Prop :=
  ∃ taken m' heard, taken <+: ins ∧
    run (Manager.step T) m (taken.map .incoming) = some m' ∧
    after.events = session.events ++ heard ∧
    if after.reconnecting then
      m'.notices = m.notices ++ heard.map .event ++ [.status .connecting] ∧
        m'.phase = .connecting 1
    else
      taken = ins ∧ m'.notices = m.notices ++ heard.map .event ∧
        m'.phase = .driving { live with tracker := after.tracker }

/-- The manager may read a message first from which the session learns what it notifies of. -/
theorem KeepsUp.cons {T : TextLayer Text} {m m₁ : Manager} {live : Live} {tracker : SequenceTracker}
    {i : Incoming Text} {ins : List (Incoming Text)} {session session₁ after : Session}
    {events : List Event} (follows : KeepsUp T m₁ { live with tracker } ins session₁ after)
    (stepped : m.step T (.incoming i) = some m₁)
    (notices : m₁.notices = m.notices ++ events.map .event)
    (learnt : session₁.events = session.events ++ events) :
    KeepsUp T m live (i :: ins) session after := by
  obtain ⟨taken, m', heard, front, reach, events', rest⟩ := follows
  refine ⟨i :: taken, m', events ++ heard, ?_, ?_, ?_, ?_⟩
  · exact List.cons_prefix_cons.mpr ⟨rfl, front⟩
  · rw [List.map_cons, run_cons, stepped]
    exact reach
  · rw [events', learnt, List.append_assoc]
  · rw [notices] at rest
    split at rest
    · next ended =>
      rw [if_pos ended]
      simpa using rest
    · next goesOn =>
      rw [if_neg goesOn]
      simpa using rest

theorem keepsUp_of_carries {T : TextLayer Text} {m : Manager} {live : Live}
    {ins : List (Incoming Text)} {frames : List ServerFrame} {session : Session}
    (carries : Carries (DecodesTo T) ins frames) (phase : m.phase = .driving live)
    (running : session.reconnecting = false) (tracked : live.tracker = session.tracker) :
    KeepsUp T m live ins session (frames.foldl Session.receive session) := by
  induction carries generalizing m live session with
  | nil =>
      refine ⟨[], m, [], List.prefix_refl _, rfl, (List.append_nil _).symm, ?_⟩
      simp [running, phase, ← tracked]
  | @ping ins _ _ ih | @pong ins _ _ ih =>
      have ignored {i : Incoming Text} (quiet : m.receive T live i = m) :
          m.step T (.incoming i) = some m := by
        rw [Manager.step, phase]
        exact congrArg some quiet
      have nothing : m.notices = m.notices ++ ([] : List Event).map Notice.event := by simp
      exact (ih phase running tracked).cons (ignored rfl) nothing (List.append_nil _).symm
  | @text t f ins frames read _ ih =>
      have read : decodeServer T t = .ok f := read
      rw [List.foldl_cons, Session.receive, running, if_neg Bool.false_ne_true]
      cases handled : handleFrame session.tracker f with
      | ok after =>
          obtain ⟨tracker, events⟩ := after
          have stepped : m.step T (.incoming (.text t)) = some
              ((m.notify (events.map .event)).goto (.driving { live with tracker })) := by
            simp only [Manager.step, phase, Manager.receive, read, tracked, handled]
          exact (ih rfl rfl rfl).cons stepped rfl rfl
      | error e =>
          rw [Session.foldl_of_reconnecting rfl]
          refine ⟨[.text t], m.connect 1, [], ?_, ?_, (List.append_nil _).symm, ?_⟩
          · exact List.cons_prefix_cons.mpr ⟨rfl, List.nil_prefix⟩
          · simp only [List.map_cons, List.map_nil, run_cons, run_nil, Manager.step, phase,
              Manager.receive, read, tracked, handled, Option.bind_some]
          · simp [Manager.connect, Manager.notify, Manager.log, Manager.goto]

end Lumencast.Client
