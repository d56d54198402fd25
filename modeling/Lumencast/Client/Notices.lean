import Lumencast.Foundation.Tail
import Lumencast.Protocol.Bundle
import Lumencast.Client.Lifecycle

/-!
# What the application hears

The manager broadcasts the status of the connection and the events of its frames. `Story` is
the grammar of these notices in a run of the manager: the attempts to connect in a row are
within the limit, the status is live only together with a snapshot, events come while it is
live, and the last word is that the client is disconnected.

The application reads the notices from an `EventStream`, which passes over those that the
broadcast channel no longer holds.
-/

namespace Lumencast.Client

open Foundation Protocol

variable {Text : Type}

/-- What the manager may tell next. -/
inductive Story where
  | asleep
  /-- The attempt of this number is under way, or the backoff after it. -/
  | connecting (attempt : Nat)
  /-- The snapshot of the live connection is still to come. -/
  | arriving
  | live
  /-- The attempts are used up. -/
  | exhausted
  | ended
  deriving DecidableEq, Repr

/-- No attempt may follow the one of the given number. -/
def spent (limit : Option Nat) (attempt : Nat) : Bool := limit.any (· ≤ attempt)

def Story.hear (limit : Option Nat) : Story → Notice → Option Story
  | asleep, .status .connecting => some (connecting 1)
  | connecting attempt, .status .connecting =>
      if spent limit attempt then none else some (connecting (attempt + 1))
  | connecting _, .status .live => some arriving
  | connecting attempt, .status .disconnected =>
      some (if spent limit attempt then exhausted else ended)
  | arriving, .event (.snapshot _) => some live
  | live, .event _ => some live
  | live, .status .connecting => some (connecting 1)
  | live, .status .disconnected => some ended
  | exhausted, .status .disconnected => some ended
  | _, _ => none

def Phase.story : Phase → Story
  | .connecting attempt | .waiting attempt => .connecting attempt
  | .driving _ | .swapping .. => .live
  | .finished => .ended

/-- The number of the attempt that failed before a backoff. -/
def Phase.failed : Phase → Option Nat
  | .waiting attempt => some attempt
  | .connecting _ | .driving _ | .swapping .. | .finished => none

theorem Story.run_events (limit : Option Nat) (events : List Event) :
    run (hear limit) .live (events.map .event) = some .live := by
  induction events with
  | nil => rfl
  | cons e events ih => exact ih

namespace Manager

/-- A backoff is followed by another attempt. -/
def Unspent (m : Manager) : Prop :=
  ∀ attempt ∈ m.phase.failed, spent m.init.maxReconnectAttempts attempt = false

/-- A step tells on, from the story of the phase before it to that of the phase after it. -/
structure Tells (m m' : Manager) : Prop where
  told : ∃ notices, m'.notices = m.notices ++ notices ∧
    run (Story.hear m.init.maxReconnectAttempts) m.phase.story notices = some m'.phase.story
  init : m'.init = m.init
  unspent : m'.Unspent

variable {T : TextLayer Text} {m m' : Manager}

/-- A step after which there is no backoff. -/
theorem Tells.of_busy {notices : List Notice} (added : m'.notices = m.notices ++ notices)
    (heard : run (Story.hear m.init.maxReconnectAttempts) m.phase.story notices =
      some m'.phase.story)
    (init : m'.init = m.init) (busy : m'.phase.failed = none) : Tells m m' where
  told := ⟨notices, added, heard⟩
  init := init
  unspent attempt waiting := by
    rw [busy] at waiting
    cases waiting

/-- A step that tells nothing. -/
theorem Tells.of_quiet (quiet : m'.notices = m.notices)
    (same : m.phase.story = m'.phase.story) (init : m'.init = m.init)
    (busy : m'.phase.failed = none) : Tells m m' :=
  have added : m'.notices = m.notices ++ [] := by rw [quiet, List.append_nil]
  .of_busy added (congrArg some same) init busy

/-- The next attempt begins. -/
theorem tells_connect {attempt : Nat}
    (again : m.phase.story.hear m.init.maxReconnectAttempts (.status .connecting) =
      some (.connecting attempt)) : Tells m (m.connect attempt) := by
  refine .of_busy rfl ?_ rfl rfl
  rw [run_cons, again]
  rfl

theorem tells_finish
    (last : m.phase.story.hear m.init.maxReconnectAttempts (.status .disconnected) = some .ended) :
    Tells m m.finish := by
  refine .of_busy rfl ?_ rfl rfl
  rw [run_cons, last]
  rfl

theorem tells_connected {attempt : Nat} (phase : m.phase = .connecting attempt)
    (result : Except ConnectError Connection) : Tells m (m.connected attempt result) := by
  cases result with
  | ok conn => exact .of_busy rfl (by rw [phase]; rfl) rfl rfl
  | error e =>
      rw [connected, retry]
      cases limit : spent m.init.maxReconnectAttempts attempt with
      | true =>
          have stops : (m.log [.opened (.error e)]).init.maxReconnectAttempts.any (· ≤ attempt) =
              true := limit
          rw [if_pos stops]
          refine .of_busy (List.append_assoc ..) ?_ rfl rfl
          simp [phase, Phase.story, Story.hear, limit, finish, goto]
      | false =>
          have goesOn : ¬(m.log [.opened (.error e)]).init.maxReconnectAttempts.any (· ≤ attempt) =
              true := fun stops => Bool.false_ne_true (limit.symm.trans stops)
          rw [if_neg goesOn]
          split
          · refine ⟨⟨[], (List.append_nil _).symm, by rw [phase]; rfl⟩, rfl, ?_⟩
            intro k waiting
            cases waiting
            exact limit
          · refine .of_busy rfl ?_ rfl rfl
            simp [phase, Phase.story, Story.hear, limit, connect, goto]

theorem tells_swapped {live : Live} {token : Token} {reply : Nat}
    (phase : m.phase = .swapping live token reply) (result : Except ConnectError Connection) :
    Tells m (m.swapped live token reply result) := by
  cases result with
  | ok conn => exact .of_busy rfl (by rw [phase]; rfl) rfl rfl
  | error e => exact .of_quiet rfl (by rw [phase]; rfl) rfl rfl

theorem tells_receive {live : Live} (phase : m.phase = .driving live) (i : Incoming Text) :
    Tells m (m.receive T live i) := by
  have lost : Tells m (m.connect 1) := tells_connect (by rw [phase]; rfl)
  cases i with
  | text t =>
      rw [receive]
      split
      · split
        · next tracker events _ =>
          refine .of_busy rfl ?_ rfl rfl
          rw [phase]
          exact Story.run_events _ events
        · exact lost
      · exact lost
  | ping | pong => exact .of_quiet rfl rfl rfl (by rw [receive, phase]; rfl)
  | close | binary | frame | ended | failed => exact lost

theorem tells_obey {cmd : Option Command} (unspent : m.Unspent) (h : m.obey cmd = some m') :
    Tells m m' := by
  cases phase : m.phase with
  | waiting attempt =>
      have goesOn := unspent attempt (by rw [phase]; rfl)
      have ends : Tells m m.finish :=
        tells_finish (by simp [phase, Phase.story, Story.hear, goesOn])
      simp only [obey, phase] at h
      split at h
      · cases h
        exact ends
      · cases h
        exact ends
      · next token reply =>
        cases h
        have next : Tells (m.log [.taken token reply m.holding])
            ((m.log [.taken token reply m.holding]).connect (attempt + 1)) := by
          refine tells_connect ?_
          simp [log, phase, Phase.story, Story.hear, goesOn]
        exact ⟨next.told, next.init, next.unspent⟩
  | driving live =>
      have ends : Tells m m.finish := tells_finish (by rw [phase]; rfl)
      simp only [obey, phase] at h
      split at h
      · cases h
        exact ends
      · cases h
        exact ends
      · cases h
        exact .of_quiet rfl (by rw [phase]; rfl) rfl rfl
  | connecting | swapping | finished =>
      rw [obey, phase] at h
      cases h

theorem tells_of_step {label : Label Text} (unspent : m.Unspent) (h : m.step T label = some m') :
    Tells m m' := by
  cases label with
  | opened result =>
      cases phase : m.phase with
      | connecting attempt =>
          simp only [step, phase, Option.some.injEq] at h
          exact h ▸ tells_connected phase result
      | swapping live token reply =>
          simp only [step, phase, Option.some.injEq] at h
          exact h ▸ tells_swapped phase result
      | waiting | driving | finished => simp [step, phase] at h
  | elapsed =>
      cases phase : m.phase with
      | waiting attempt =>
          simp only [step, phase, Option.some.injEq] at h
          refine h ▸ tells_connect ?_
          simp [phase, Phase.story, Story.hear, unspent attempt (by rw [phase]; rfl)]
      | connecting | driving | swapping | finished => simp [step, phase] at h
  | command cmd => exact tells_obey unspent h
  | incoming i =>
      cases phase : m.phase with
      | driving live =>
          simp only [step, phase, Option.some.injEq] at h
          exact h ▸ tells_receive phase i
      | connecting | waiting | swapping | finished => simp [step, phase] at h

/-- What holds of the manager in every run. -/
structure Telling (limit : Option Nat) (m : Manager) : Prop where
  told : run (Story.hear limit) .asleep m.notices = some m.phase.story
  limit : m.init.maxReconnectAttempts = limit
  unspent : m.Unspent

theorem telling_start (init : ManagerInit) :
    (start init).Telling init.maxReconnectAttempts where
  told := rfl
  limit := rfl
  unspent attempt waiting := by cases waiting

theorem Telling.step {limit : Option Nat} {label : Label Text} (telling : m.Telling limit)
    (h : m.step T label = some m') : m'.Telling limit := by
  have tells := tells_of_step telling.unspent h
  obtain ⟨notices, added, heard⟩ := tells.told
  refine ⟨?_, by rw [tells.init, telling.limit], tells.unspent⟩
  rw [added, run_append_eq_some]
  exact ⟨_, telling.told, telling.limit ▸ heard⟩

/-- In every run of the manager, its notices follow the story, and they have led it to the
phase the manager is in. -/
theorem client_story {init : ManagerInit} {schedule : List (Label Text)}
    (reach : run (Manager.step T) (start init) schedule = some m) :
    run (Story.hear init.maxReconnectAttempts) .asleep m.notices = some m.phase.story :=
  (run_invariant (fun _ _ _ telling h => Telling.step telling h) (telling_start init) reach).told

end Manager

private def hut : ManagerInit := { url := "ws://hut", token := "t", maxReconnectAttempts := some 2 }

private def hutSnapshot : Snapshot :=
  { seq := 1, sceneId := "hut", sceneVersion := "1", state := ∅ }

/-- A connection is opened and lost, and cannot be opened again. -/
private def lostForGood : List (Label Value) :=
  [.opened (.ok ⟨0, hutSnapshot⟩), .incoming .ended, .opened (.error .closed), .elapsed,
    .opened (.error .closed)]

theorem client_story_lostForGood :
    ∃ m, run (Manager.step valuePlatform.toTextLayer) (.start hut) lostForGood = some m ∧
      m.notices = [.status .connecting, .status .live, .event (.snapshot hutSnapshot),
        .status .connecting, .status .connecting, .status .disconnected,
        .status .disconnected] ∧
      run (Story.hear (some 2)) .asleep m.notices = some m.phase.story := by
  have ends : (run (Manager.step valuePlatform.toTextLayer) (.start hut) lostForGood).any
      (fun m => m.notices = [.status .connecting, .status .live, .event (.snapshot hutSnapshot),
        .status .connecting, .status .connecting, .status .disconnected,
        .status .disconnected]) = true := by
    decide
  obtain ⟨m, reach, told⟩ := exists_run_of_any ends
  exact ⟨m, reach, told, Manager.client_story reach⟩

/-! ## The event stream -/

/-- Capacity of the channel of notices. -/
def eventBuffer : Nat := 256

/-- The channel on which the manager has broadcast its notices. -/
def Manager.events (m : Manager) : Broadcast Notice where
  capacity := eventBuffer
  sent := m.notices

/-- The client with one `EventStream` of the application. -/
structure Application where
  manager : Manager
  stream : Tail Notice

inductive Application.Label (Text : Type) where
  | manager (label : Client.Label Text)
  /-- The application polls its stream. -/
  | poll

namespace Application

def step (T : TextLayer Text) (app : Application) : Label Text → Option Application
  | .manager label => (app.manager.step T label).map fun manager => { app with manager }
  | .poll => some { app with stream := app.stream.poll app.manager.events }

/-- `Client::events`. -/
def subscribe (manager : Manager) : Application where
  manager := manager
  stream := .subscribe manager.events

/-- The stream is not further behind than the channel reaches when it is polled. -/
def InTime (app : Application) : Label Text → Prop
  | .poll => app.manager.notices.length ≤ app.stream.next + eventBuffer
  | .manager _ => True

instance (app : Application) : (label : Label Text) → Decidable (app.InTime label)
  | .poll => inferInstanceAs (Decidable (_ ≤ _))
  | .manager _ => isTrue trivial

/-- The stream was opened when so many notices had been sent, and it has heard what a receiver
hears that passes over its losses. -/
structure Hears (limit : Option Nat) (since : Nat) (app : Application) : Prop where
  telling : app.manager.Telling limit
  heard : Tail.Heard app.manager.events app.stream
  since_eq : app.stream.since = since

/-- What the stream has yielded and can still yield is all that was sent since. -/
def Whole (app : Application) : Prop :=
  app.stream.reach app.manager.events = app.manager.events.pending app.stream.since

variable {T : TextLayer Text} {limit : Option Nat} {since : Nat} {app app' : Application}
  {label : Label Text}

/-- A step of the manager sends notices, and a poll leaves them alone. -/
theorem Hears.step (hears : app.Hears limit since) (h : app.step T label = some app') :
    app'.Hears limit since ∧ (app.InTime label → app.Whole → app'.Whole) := by
  cases label with
  | manager label =>
      obtain ⟨manager, stepped, rfl⟩ := Option.map_eq_some_iff.mp h
      obtain ⟨notices, added, _⟩ := (Manager.tells_of_step hears.telling.unspent stepped).told
      have sends : manager.events =
          { app.manager.events with sent := app.manager.events.sent ++ notices } := by
        rw [Manager.events, added]
        rfl
      refine ⟨⟨hears.telling.step stepped, ?_, hears.since_eq⟩, fun _ whole => ?_⟩
      · dsimp only
        rw [sends]
        exact hears.heard.sends notices
      · rw [Whole]
        dsimp only
        rw [sends, hears.heard.reach_sends, hears.heard.pending_sends, whole]
  | poll =>
      cases h
      refine ⟨⟨hears.telling, hears.heard.polls, ?_⟩, fun inTime whole => ?_⟩
      · exact (Tail.poll_since ..).trans hears.since_eq
      · have within : app.manager.events.sent.length ≤
            app.stream.next + app.manager.events.capacity := inTime
        exact (Tail.reach_poll within).trans (by rw [whole, Tail.poll_since])

/-- In every run of the client with an event stream: what the application hears is a part of what
the manager has told since the stream was opened, in order; once the stream has nothing more to
yield, the application has heard the last notices that the channel holds; and it has heard all of
them if it has polled the stream in time. -/
theorem events_reach_application {init : ManagerInit} {before : List (Client.Label Text)}
    {manager : Manager} {schedule : List (Label Text)}
    (begun : run (Manager.step T) (Manager.start init) before = some manager)
    (reach : run (Application.step T) (subscribe manager) schedule = some app) :
    let since := manager.notices.length
    let sent := app.manager.notices
    app.stream.yielded.Sublist (sent.drop since) ∧
      (app.manager.events.recv app.stream.next = .empty →
        sent.drop (max since (sent.length - eventBuffer)) <:+ app.stream.yielded) ∧
      (Along (Application.step T) InTime (subscribe manager) schedule →
        app.stream.yielded ++ sent.drop app.stream.next = sent.drop since) := by
  have telling := run_invariant (fun _ _ _ telling h => Manager.Telling.step telling h)
    (Manager.telling_start init) begun
  have starts : (subscribe manager).Hears init.maxReconnectAttempts manager.notices.length :=
    ⟨telling, Tail.heard_subscribe _, rfl⟩
  have hears := run_invariant (fun _ _ _ hears h => (Hears.step hears h).1) starts reach
  refine ⟨?_, fun drained => ?_, fun inTime => ?_⟩
  · have part := hears.heard.part
    rw [hears.since_eq] at part
    exact (List.sublist_append_left ..).trans part
  · have last := hears.heard.last
    rwa [hears.since_eq, Tail.reach, Broadcast.pending_of_empty drained, List.append_nil] at last
  · have timely := inTime.with_invariant
      (I := fun app => app.Hears init.maxReconnectAttempts manager.notices.length)
      (fun _ _ _ hears _ h => (Hears.step hears h).1) starts
    have empty : (subscribe manager).Whole := List.nil_append _
    have whole : app.Whole := timely.invariant (I := Whole)
      (fun _ _ _ whole timely h => (Hears.step timely.1 h).2 timely.2 whole) empty reach
    rwa [Whole, hears.since_eq] at whole

/-- The application opens a stream and polls it after the connection is live. -/
private def listening : List (Label Value) :=
  [.manager (.opened (.ok ⟨0, hutSnapshot⟩)), .poll, .poll, .poll]

theorem events_reach_listening :
    ∃ app, run (step valuePlatform.toTextLayer) (subscribe (.start hut)) listening = some app ∧
      app.stream.yielded = [.status .live, .event (.snapshot hutSnapshot)] ∧
      app.stream.yielded ++ app.manager.notices.drop app.stream.next =
        app.manager.notices.drop 1 := by
  have ends : (run (step valuePlatform.toTextLayer) (subscribe (.start hut)) listening).any
      (fun app => app.stream.yielded = [.status .live, .event (.snapshot hutSnapshot)]) = true := by
    decide
  obtain ⟨app, reach, yielded⟩ := exists_run_of_any ends
  have begun : run (Manager.step valuePlatform.toTextLayer) (.start hut) [] =
      some (.start hut) := rfl
  exact ⟨app, reach, yielded, (events_reach_application begun reach).2.2 (by decide)⟩

end Application
end Lumencast.Client
