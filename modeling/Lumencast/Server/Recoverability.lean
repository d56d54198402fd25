import Lumencast.Server.NoLoss

/-!
# Recoverability of errors

The taxonomy fixes for each code but `INTERNAL` whether its errors are recoverable, and
the handler passes the flag by hand at every emission. An error is sent one step after the
step that decides on it, so the invariant covers what was sent and what is pending.

Two of the emissions go against the taxonomy: a text that the JSON layer refuses is
answered with a final `INVALID_VALUE`, and the error of a rejected scene is final whatever
its code.
-/

namespace Lumencast.Server

open Foundation Protocol

variable {Text : Type}

/-- The flag is the one that the taxonomy fixes for the code. -/
def FollowsTaxonomy (code : ErrorCode) (recoverable : Bool) : Prop :=
  code ≠ .internal → recoverable = code.defaultRecoverable

instance (code : ErrorCode) (recoverable : Bool) : Decidable (FollowsTaxonomy code recoverable) :=
  inferInstanceAs (Decidable (_ → _))

def ErrorReply.Follows (reply : ErrorReply) : Prop :=
  FollowsTaxonomy reply.code reply.recoverable

/-- Whoever breaks a rule may go on. -/
theorem Breaks.recoverable {T : TextLayer Text} {scene : Scene Text} {identity : Identity}
    {code : ErrorCode} {path : String} {value : Value}
    (breaks : Breaks T scene identity code path value) : code.defaultRecoverable = true := by
  cases code with
  | writeForbidden | unknownPath | invalidValue => rfl
  | authDenied | sceneNotFound | bundleFetchFailed | bundleIncompatible | versionGap
  | versionMismatch | rateLimit | testSessionExpired | internal => exact absurd breaks id

/-- Every refusal of an input follows the taxonomy. -/
theorem follows_of_handleInput {T : TextLayer Text} {scene : Scene Text} {identity : Identity}
    {rate rate' : RateBucket} {now : Nat} {input : Input} {reply : ErrorReply} {stop : Bool}
    (h : handleInput T scene identity rate now input = (.refuse reply stop, rate')) :
    reply.Follows := by
  have verdict := inputVerdict_handleInput T scene identity rate now input
  rw [h] at verdict
  cases verdict with
  | role | empty | limit => exact fun _ => rfl
  | patch _ refused =>
      obtain ⟨recoverable, _, breaks⟩ := checkPatch_eq_some refused
      exact fun _ => recoverable.trans breaks.recoverable.symm
  | emission => exact fun ordinary => absurd rfl ordinary

/-- The JSON layer accepts the text: it is a document, and the document has the fields of a
frame. -/
def readsJson (T : TextLayer Text) (text : Text) : Bool :=
  match decodeClient T text with
  | .error (.json _) => false
  | _ => true

/-- A text that the JSON layer accepts is refused with the flag of the taxonomy. -/
theorem follows_of_handleTextFrame {T : TextLayer Text} {scene : Scene Text} {identity : Identity}
    {rate rate' : RateBucket} {now : Nat} {text : Text} {reply : ErrorReply} {stop : Bool}
    (reads : readsJson T text = true)
    (h : handleTextFrame T scene identity rate now text = (.refuse reply stop, rate')) :
    reply.Follows := by
  unfold handleTextFrame at h
  split at h
  · cases h
    exact fun _ => rfl
  · next e unread =>
    rw [readsJson, unread] at reads
    cases reads
  · cases h
    exact fun ordinary => absurd rfl ordinary
  · cases h
  · cases h
    exact fun ordinary => absurd rfl ordinary
  · exact follows_of_handleInput h
  · cases h

/-- If the message is a text, the JSON layer accepts it. -/
def Message.Reads (T : TextLayer Text) : Message Text → Prop
  | .text t => readsJson T t = true
  | _ => True

instance (T : TextLayer Text) : (m : Message Text) → Decidable (m.Reads T)
  | .text t => inferInstanceAs (Decidable (readsJson T t = true))
  | .binary | .ping | .pong | .close => isTrue trivial

/-- The error that the next step sends. -/
def Phase.pending : Phase → Option ErrorReply
  | denying reply | refusing reply _ => some reply
  | _ => none

namespace Connection

/-- The errors of a connection, sent and pending, follow the taxonomy. -/
structure Faithful (conn : Connection Text) : Prop where
  sent : ∀ f, .error f ∈ conn.outbox → FollowsTaxonomy f.code f.recoverable
  pending : ∀ reply ∈ conn.phase.pending, reply.Follows

/-- The step refuses no text for its JSON, and reports no rejection with a code whose errors
are recoverable. -/
def Regular (T : TextLayer Text) (inner : ServerInner Text) (conn : Connection Text) : Prop :=
  match conn.phase with
  | .live => ∀ m ∈ conn.inbox.head?, m.Reads T
  | .checking _ => ∀ r ∈ conn.current, ∀ rejection ∈ (inner.heap r).scene.rejection,
      rejection.code.defaultRecoverable = false
  | _ => True

instance (T : TextLayer Text) (inner : ServerInner Text) (conn : Connection Text) :
    Decidable (Regular T inner conn) := by
  unfold Regular
  exact match conn.phase with
    | .live => inferInstanceAs (Decidable (∀ m ∈ conn.inbox.head?, m.Reads T))
    | .checking _ => inferInstanceAs (Decidable (∀ r ∈ conn.current,
        ∀ rejection ∈ (inner.heap r).scene.rejection, rejection.code.defaultRecoverable = false))
    | .awaiting | .resolving _ | .lookingUp .. | .subscribing _ | .subscribingEvents _
    | .comparing _ | .replaying _ | .readingSeq | .readingState _ | .denying _ | .pollingEvents
    | .pollingDeltas | .refusing .. | .migrating _ | .advancing _ | .swapReadingSeq _
    | .swapReadingState .. | .resubscribing _ | .closed => isTrue trivial

/-- Frames that are no errors are sent, and none is decided on. -/
theorem Faithful.sends {conn conn' : Connection Text} (faithful : conn.Faithful)
    {frames : List ServerFrame} (outbox : conn'.outbox = conn.outbox ++ frames)
    (harmless : ∀ f, .error f ∉ frames) (settled : conn'.phase.pending = none) :
    conn'.Faithful where
  sent f member := by
    rw [outbox] at member
    rcases List.mem_append.mp member with before | new
    · exact faithful.sent f before
    · exact absurd new (harmless f)
  pending reply decided := by
    rw [settled] at decided
    cases decided

/-- Nothing is sent, and an error is decided on. -/
theorem Faithful.decides {conn conn' : Connection Text} (faithful : conn.Faithful)
    {reply : ErrorReply} (outbox : conn'.outbox = conn.outbox)
    (decided : conn'.phase.pending = some reply) (follows : reply.Follows) : conn'.Faithful where
  sent f member := faithful.sent f (outbox ▸ member)
  pending other found := by
    rw [decided] at found
    cases found
    exact follows

/-- Nothing is sent or decided on. -/
theorem Faithful.still {conn conn' : Connection Text} (faithful : conn.Faithful)
    (outbox : conn'.outbox = conn.outbox) (settled : conn'.phase.pending = none) :
    conn'.Faithful :=
  have outbox : conn'.outbox = conn.outbox ++ [] := by rw [outbox, List.append_nil]
  faithful.sends outbox (fun _ => List.not_mem_nil) settled

/-- The pending error is sent. -/
theorem Faithful.reports {conn conn' : Connection Text} (faithful : conn.Faithful)
    {reply : ErrorReply} (decided : conn.phase.pending = some reply) {seq : Nat} {clock : Clock}
    (outbox : conn'.outbox = conn.outbox ++ [reply.frame seq clock])
    (settled : conn'.phase.pending = none) : conn'.Faithful where
  sent f member := by
    rw [outbox] at member
    rcases List.mem_append.mp member with before | new
    · exact faithful.sent f before
    · have same := List.mem_singleton.mp new
      rw [ErrorReply.frame, ServerFrame.error.injEq] at same
      subst same
      exact faithful.pending reply decided
  pending other found := by
    rw [settled] at found
    cases found

/-- A message of the main loop. -/
theorem Faithful.onMessage {T : TextLayer Text} {c : Nat} {r : SceneRef} {scene : Scene Text}
    {conn : Connection Text} {amb : Ambient} {m : Message Text} (faithful : conn.Faithful)
    (phase : conn.phase = .live) (reads : m.Reads T) :
    (conn.onMessage T c r scene amb m).conn.Faithful := by
  have idle : conn.phase.pending = none := by
    rw [phase]
    rfl
  cases m with
  | text t =>
      rw [Connection.onMessage]
      cases handled : handleTextFrame T scene conn.identity conn.rate amb.clock.instant t with
      | mk verdict rate =>
          cases verdict with
          | answer pong => exact faithful.sends rfl (by simp) idle
          | refuse reply stop =>
              exact faithful.decides rfl rfl
                (follows_of_handleTextFrame reads handled)
          | stop => exact faithful.still rfl rfl
          | publish patches cause => exact faithful.still rfl idle
          | ignore => exact faithful.still rfl idle
  | binary => exact faithful.decides rfl rfl fun ordinary => absurd rfl ordinary
  | ping | pong => exact faithful.still rfl idle
  | close => exact faithful.still rfl rfl

/-- The steps of the handler, one transition after the other. -/
theorem Faithful.step {T : TextLayer Text} {inner : ServerInner Text} {c : Nat}
    {conn : Connection Text} {amb : Ambient} {o : Outcome Text} (faithful : conn.Faithful)
    (regular : conn.Regular T inner) (h : conn.step T inner c amb = some o) :
    o.conn.Faithful := by
  cases Connection.transition_of_step h with
  | turnAway | notResolved | notFound => exact faithful.decides rfl rfl fun _ => rfl
  | @reject sub r rejection phase current rejected =>
      simp only [Regular, phase] at regular
      exact faithful.decides rfl rfl fun _ => (regular r current rejection rejected).symm
  | replay => exact faithful.sends rfl (by simp) rfl
  | readState | crossState => exact faithful.sends rfl (by simp [snapshotFrame]) rfl
  | deny phase => exact faithful.reports (by rw [phase]; rfl) rfl rfl
  | @message r m rest phase current first =>
      simp only [Regular, phase] at regular
      have unread : ({ conn with inbox := rest } : Connection Text).Faithful :=
        ⟨faithful.sent, faithful.pending⟩
      exact unread.onMessage phase (regular m (by rw [first, List.head?_cons, Option.mem_some]))
  | loseEvents | loseDeltas => exact faithful.decides rfl rfl fun ordinary => absurd rfl ordinary
  | deliver => exact faithful.sends rfl (by simp) rfl
  | @refuse reply stop r phase current =>
      refine faithful.reports (by rw [phase]; rfl) rfl ?_
      cases stop <;> rfl
  | leave => exact faithful.sends rfl (by simp [sceneChangedFrame]) rfl
  | _ => exact faithful.still rfl rfl

end Connection

/-- In every run from a state in which the connection is new, and in which its handler refuses
no text for its JSON and reports no rejection with a code whose errors are recoverable, every
error that it sends carries the flag of its code, `INTERNAL` apart. -/
theorem errors_follow_taxonomy {P : Platform Text} {start stop : World Text} {c : Nat}
    {schedule : List (Action Text)} (awaiting : (start.conns c).phase = .awaiting)
    (silent : (start.conns c).outbox = [])
    (regular : Along (World.step P) (World.AtHandler c (Connection.Regular P.toTextLayer)) start
      schedule)
    (reach : run (World.step P) start schedule = some stop) :
    ∀ f, .error f ∈ (stop.conns c).outbox → f.code ≠ .internal →
      f.recoverable = f.code.defaultRecoverable := by
  have faithful : (stop.conns c).Faithful := by
    refine regular.invariant (I := fun w => (w.conns c).Faithful) ?_ ⟨?_, ?_⟩ reach
    · intro w a w' faithful regular h
      refine World.conn_step (Q := Connection.Faithful) h
        (fun inbox => ⟨faithful.sent, faithful.pending⟩) (faithful.still rfl rfl)
        fun amb o taken stepped => ?_
      subst taken
      exact faithful.step (regular rfl) stepped
    · rw [silent]
      exact fun f member => absurd member List.not_mem_nil
    · rw [awaiting]
      exact fun reply decided => nomatch decided
  exact faithful.sent

/-- The codes and flags of the errors among the frames. -/
private def flags (frames : List ServerFrame) : List (ErrorCode × Bool) :=
  frames.filterMap fun
    | .error f => some (f.code, f.recoverable)
    | _ => none

private theorem exists_error_of_flags {frames : List ServerFrame} {code : ErrorCode} {flag : Bool}
    (h : (code, flag) ∈ flags frames) :
    ∃ f, .error f ∈ frames ∧ f.code = code ∧ f.recoverable = flag := by
  obtain ⟨frame, member, found⟩ := List.mem_filterMap.mp h
  cases frame with
  | error f =>
      cases found
      exact ⟨f, member, rfl, rfl⟩
  | snapshot | delta | sceneChanged | pong => cases found

/-- A connection sends an input with the given fields. -/
private def inputRun (fields : Fields) : List (Action Value) :=
  connect 0 ++
    [.receive 0
      (.text (.object (fields ++ [("type", .string "input"), ("v", .number (.posInt 1))]))),
      operatorStep 0, operatorStep 0]

/-- An input without patches is refused, and the connection goes on. -/
theorem errors_follow_taxonomy_emptyInput :
    ∃ stop f, run (World.step valuePlatform) twoScenes (inputRun [("patches", .array [])]) =
        some stop ∧
      .error f ∈ (stop.conns 0).outbox ∧ f.code = .invalidValue ∧ f.recoverable = true := by
  have ends : (run (World.step valuePlatform) twoScenes (inputRun [("patches", .array [])])).any
      (fun stop => flags (stop.conns 0).outbox = [(.invalidValue, true)]) = true := by
    decide
  obtain ⟨stop, reach, sent⟩ := exists_run_of_any ends
  obtain ⟨f, member, code, _⟩ := exists_error_of_flags (sent ▸ List.mem_singleton_self _)
  refine ⟨stop, f, reach, member, code, ?_⟩
  have follows := errors_follow_taxonomy (c := 0) rfl rfl (by decide) reach f member
  rw [code] at follows
  exact follows nofun

/-- An input that lacks its patches is refused for good, with a code whose errors are
recoverable. -/
theorem errors_against_taxonomy :
    ∃ stop, run (World.step valuePlatform) twoScenes (inputRun []) = some stop ∧
      ¬∀ f, .error f ∈ (stop.conns 0).outbox → f.code ≠ .internal →
        f.recoverable = f.code.defaultRecoverable := by
  have ends : (run (World.step valuePlatform) twoScenes (inputRun [])).any
      (fun stop => flags (stop.conns 0).outbox = [(.invalidValue, false)]) = true := by
    decide
  obtain ⟨stop, reach, sent⟩ := exists_run_of_any ends
  obtain ⟨f, member, code, final⟩ := exists_error_of_flags (sent ▸ List.mem_singleton_self _)
  refine ⟨stop, reach, fun follows => ?_⟩
  have flag := follows f member
  rw [code, final] at flag
  exact absurd (flag nofun) (by decide)

end Lumencast.Server
