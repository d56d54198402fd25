import Mathlib.Data.List.Induction
import Lumencast.Protocol.Sequence

/-!
# The client's frame dispatch

The client keeps one sequence tracker for a connection, initialised from the
snapshot that opened it. `handleFrame` drops a frame that the tracker has seen,
asks for a reconnection when a number is skipped, and turns any other frame into
at most one event. The rule applies to every frame that has a number, errors
included.

`Unbroken` and `highestSeq` describe the numbers on the wire without the
tracker; `drive_of_unbroken` says that the tracker follows them.
-/

namespace Lumencast.Client

open Protocol

/-- The events that a frame can produce. -/
inductive Event where
  | snapshot (f : Snapshot)
  | delta (f : Delta)
  | sceneChanged (f : SceneChanged)
  | error (f : ErrorFrame)
  deriving DecidableEq

/-- Why the connection must be recycled. -/
inductive FrameDispatch where
  | gap
  deriving DecidableEq, Repr

/-- The event of an accepted frame, and the tracker after it. -/
def dispatch (tracker : SequenceTracker) : ServerFrame → SequenceTracker × List Event
  | .snapshot s => (tracker, [.snapshot s])
  | .delta d => (tracker, [.delta d])
  | .sceneChanged c => (tracker.reset, [.sceneChanged c])
  | .error e => (tracker, [.error e])
  | .pong _ => (tracker, [])

def handleFrame (tracker : SequenceTracker) (frame : ServerFrame) :
    Except FrameDispatch (SequenceTracker × List Event) :=
  match frame.seq with
  | none => .ok (dispatch tracker frame)
  | some seq =>
      match tracker.observeSeq seq with
      | .ok (.duplicate, tracker) => .ok (tracker, [])
      | .ok (_, tracker) => .ok (dispatch tracker frame)
      | .error _ => .error .gap

/-- The client between two frames of a connection. -/
structure Session where
  tracker : SequenceTracker
  events : List Event := []
  /-- A gap was found: the connection is closed, no further frame is read. -/
  reconnecting : Bool := false
  deriving DecidableEq

namespace Session

def open_ (snapshot : Snapshot) : Session where
  tracker :=
    match SequenceTracker.new.observeSeq snapshot.seq with
    | .ok (_, tracker) => tracker
    | .error _ => SequenceTracker.new

def receive (session : Session) (frame : ServerFrame) : Session :=
  if session.reconnecting then session
  else
    match handleFrame session.tracker frame with
    | .ok (tracker, events) => { session with tracker, events := session.events ++ events }
    | .error _ => { session with reconnecting := true }

end Session

/-- The client's main loop on the frames that follow the opening snapshot. -/
def drive (snapshot : Snapshot) (frames : List ServerFrame) : Session :=
  frames.foldl Session.receive (Session.open_ snapshot)

def Event.delta? : Event → Option Delta
  | delta d => some d
  | _ => none

def Event.error? : Event → Option ErrorFrame
  | error e => some e
  | _ => none

theorem drive_concat (snapshot : Snapshot) (frames : List ServerFrame) (f : ServerFrame) :
    drive snapshot (frames ++ [f]) = (drive snapshot frames).receive f :=
  List.foldl_concat ..

theorem open_tracker {snapshot : Snapshot} (positive : 1 ≤ snapshot.seq) :
    (Session.open_ snapshot).tracker = ⟨snapshot.seq⟩ := by
  simp only [Session.open_, SequenceTracker.new, SequenceTracker.observeSeq_fresh positive]

/-- The error that a frame carries. -/
def errorOf : ServerFrame → Option ErrorFrame
  | .error e => some e
  | _ => none

theorem dispatch_error (tracker : SequenceTracker) (frame : ServerFrame) :
    (dispatch tracker frame).2.filterMap Event.error? = (errorOf frame).toList := by
  cases frame <;> rfl

/-! ## The numbers on the wire -/

/-- The highest number since the last scene change, after one more frame. -/
def highestAfter (highest : Nat) (frame : ServerFrame) : Nat :=
  match frame with
  | .sceneChanged c => if c.seq ≤ highest then highest else 0
  | frame => max highest (frame.seq.getD 0)

/-- The highest number among frames, since the last scene change. -/
def highestSeq (frames : List ServerFrame) : Nat := frames.foldl highestAfter 0

/-- The number of a frame skips none above the highest one so far. -/
def Continues (highest : Nat) (frame : ServerFrame) : Prop :=
  ∀ seq ∈ frame.seq, if highest = 0 then 1 ≤ seq else seq ≤ highest + 1

instance (highest : Nat) (frame : ServerFrame) : Decidable (Continues highest frame) :=
  inferInstanceAs (Decidable (∀ seq ∈ frame.seq, if highest = 0 then _ else _))

def UnbrokenFrom : Nat → List ServerFrame → Prop
  | _, [] => True
  | highest, f :: rest => Continues highest f ∧ UnbrokenFrom (highestAfter highest f) rest

instance UnbrokenFrom.decidable : (highest : Nat) → (frames : List ServerFrame) →
    Decidable (UnbrokenFrom highest frames)
  | _, [] => isTrue trivial
  | highest, f :: rest =>
      have := UnbrokenFrom.decidable (highestAfter highest f) rest
      inferInstanceAs (Decidable (Continues highest f ∧ UnbrokenFrom _ rest))

/-- No frame skips a number. -/
def Unbroken (frames : List ServerFrame) : Prop := UnbrokenFrom 0 frames

instance (frames : List ServerFrame) : Decidable (Unbroken frames) :=
  UnbrokenFrom.decidable 0 frames

@[simp] theorem highestSeq_concat (frames : List ServerFrame) (f : ServerFrame) :
    highestSeq (frames ++ [f]) = highestAfter (highestSeq frames) f :=
  List.foldl_concat ..

theorem unbrokenFrom_append {highest : Nat} {front rest : List ServerFrame} :
    UnbrokenFrom highest (front ++ rest) ↔
      UnbrokenFrom highest front ∧ UnbrokenFrom (front.foldl highestAfter highest) rest := by
  induction front generalizing highest with
  | nil => simp [UnbrokenFrom]
  | cons f front ih => simp only [List.cons_append, UnbrokenFrom, ih, List.foldl_cons, and_assoc]

theorem unbroken_concat {frames : List ServerFrame} {f : ServerFrame} :
    Unbroken (frames ++ [f]) ↔ Unbroken frames ∧ Continues (highestSeq frames) f := by
  rw [Unbroken, unbrokenFrom_append, UnbrokenFrom, UnbrokenFrom, and_true]
  rfl

/-- A tracker that starts at the highest number stays there. -/
theorem handleFrame_of_continues {tracker : SequenceTracker} {frame : ServerFrame}
    (continues : Continues tracker.last frame) :
    ∃ events, handleFrame tracker frame = .ok (⟨highestAfter tracker.last frame⟩, events) := by
  cases numbered : frame.seq with
  | none =>
      cases frame <;> simp [ServerFrame.seq] at numbered
      simp [handleFrame, ServerFrame.seq, dispatch, highestAfter]
  | some seq =>
      have bound := continues seq numbered
      obtain ⟨last⟩ := tracker
      simp only at bound ⊢
      split at bound
      · next fresh =>
        subst fresh
        rw [handleFrame, numbered]
        simp only [SequenceTracker.observeSeq_fresh bound]
        have above : ¬seq ≤ 0 := by omega
        cases frame <;> cases numbered <;>
          simp [dispatch, highestAfter, ServerFrame.seq, SequenceTracker.reset, above]
      · next seen =>
        rw [handleFrame, numbered]
        by_cases old : seq ≤ last
        · have started : 1 ≤ SequenceTracker.last ⟨last⟩ := Nat.pos_of_ne_zero seen
          simp only [SequenceTracker.observeSeq_duplicate (t := ⟨last⟩) started old]
          cases frame <;> cases numbered <;> simp [highestAfter, ServerFrame.seq, old]
        · have next : seq = last + 1 := by omega
          have accepted := next ▸ SequenceTracker.observeSeq_next ⟨last⟩
          simp only [accepted]
          cases frame <;> cases numbered <;>
            simp [dispatch, highestAfter, ServerFrame.seq, SequenceTracker.reset] <;> omega

theorem handleFrame_errors {tracker tracker' : SequenceTracker} {frame : ServerFrame}
    {events : List Event} (handled : handleFrame tracker frame = .ok (tracker', events))
    (other : errorOf frame = none) : events.filterMap Event.error? = [] := by
  have dispatched (tracker : SequenceTracker) :
      (dispatch tracker frame).2.filterMap Event.error? = [] := by
    rw [dispatch_error, other]
    rfl
  unfold handleFrame at handled
  split at handled
  · obtain ⟨rfl, rfl⟩ := Prod.mk.inj (Except.ok.inj handled)
    exact dispatched tracker
  · split at handled
    · cases handled
      rfl
    · next observed _ =>
      obtain ⟨rfl, rfl⟩ := Prod.mk.inj (Except.ok.inj handled)
      exact dispatched _
    · cases handled

namespace Session

variable {session : Session} {frame : ServerFrame}

/-- A number seen before is dropped. -/
theorem receive_duplicate {seq : Nat} (running : session.reconnecting = false)
    (numbered : frame.seq = some seq) (seen : 1 ≤ session.tracker.last)
    (old : seq ≤ session.tracker.last) : session.receive frame = session := by
  obtain ⟨tracker, events, reconnecting⟩ := session
  cases running
  simp [receive, handleFrame, numbered,
    SequenceTracker.observeSeq_duplicate seen old]

/-- The next number is dispatched. -/
theorem receive_next (running : session.reconnecting = false)
    (numbered : frame.seq = some (session.tracker.last + 1)) :
    session.receive frame =
      { session with
        tracker := (dispatch ⟨session.tracker.last + 1⟩ frame).1
        events := session.events ++ (dispatch ⟨session.tracker.last + 1⟩ frame).2 } := by
  simp [receive, running, handleFrame, numbered,
    SequenceTracker.observeSeq_next]

/-- A frame without a number produces no event. -/
theorem receive_unnumbered (numbered : frame.seq = none) : session.receive frame = session := by
  cases frame <;> simp [ServerFrame.seq] at numbered
  simp [receive, handleFrame, ServerFrame.seq, dispatch]

/-- Only an error frame can produce an error event. -/
theorem receive_errors (other : errorOf frame = none) :
    (session.receive frame).events.filterMap Event.error? =
      session.events.filterMap Event.error? := by
  unfold receive
  split
  · rfl
  · split
    · next handled =>
      rw [List.filterMap_append, handleFrame_errors handled other, List.append_nil]
    · rfl

end Session

/-- As long as no number is skipped, the client follows the numbers on the wire. -/
theorem drive_of_unbroken {snapshot : Snapshot} {frames : List ServerFrame}
    (unbroken : Unbroken (.snapshot snapshot :: frames)) :
    (drive snapshot frames).reconnecting = false ∧
      (drive snapshot frames).tracker = ⟨highestSeq (.snapshot snapshot :: frames)⟩ := by
  induction frames using List.reverseRecOn with
  | nil =>
      have positive : 1 ≤ snapshot.seq := by
        simpa using unbroken.1 snapshot.seq rfl
      refine ⟨rfl, ?_⟩
      rw [drive, List.foldl_nil, open_tracker positive]
      simp [highestSeq, highestAfter, ServerFrame.seq]
  | append_singleton front f ih =>
      rw [← List.cons_append, unbroken_concat] at unbroken
      obtain ⟨running, tracker⟩ := ih unbroken.1
      have continues : Continues (drive snapshot front).tracker.last f := by
        rw [tracker]
        exact unbroken.2
      obtain ⟨events, handled⟩ := handleFrame_of_continues continues
      rw [drive_concat, Session.receive, running, handled, ← List.cons_append, highestSeq_concat,
        tracker]
      exact ⟨rfl, rfl⟩

end Lumencast.Client
