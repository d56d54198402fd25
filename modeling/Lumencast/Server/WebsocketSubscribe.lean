import Mathlib.Algebra.Order.Ring.Nat
import Lumencast.Foundation.Run
import Lumencast.Foundation.Watch
import Lumencast.Protocol.Bundle
import Lumencast.Server.Flatten
import Lumencast.Server.Handler

/-!
# The WebSocket feed adapter

The adapter connects to an external feed and connects again when the session is
over, until the cancel flag is set. One step of the machine is one pass of the
loop of `spawn`; what becomes of the connection, what the feed sends and what
happens to the cancel channel meanwhile are inputs of the step. The history of the
attempts is kept beside the state of the loop, with the time waited after each.

The argument of every wait is doubled as it should be (`Tracks`). A wait is still
missing after a session in which a frame was applied, and lost when the cancel
channel has something else to report than a cancellation, and these are the only
ways in which the adapter fails to back off.

Durations are in nanoseconds.
-/

namespace Lumencast.Server

open Foundation Protocol

variable {Text : Type}

structure WsSubscribeConfig where
  url : String := ""
  /-- Leaf-path prefix the incoming document is flattened under. -/
  writesTo : String := ""
  backoffInitial : Nat := 250000000
  backoffMax : Nat := 30 * second

/-- `Duration::MAX`, beyond which a multiplication panics. -/
def durationMax : Nat := 2 ^ 64 * second - 1

namespace WsSubscribe

inductive Outcome where
  | cancelled
  | disconnected
  /-- The session produced a frame. -/
  | connected
deriving DecidableEq

inductive Message (Text : Type) where
  | text (payload : Text)
  | binary
  | frame
  | ping
  | pong
  | close

/-- What the read half of the connection yields. -/
inductive Item (Text : Type) where
  | message (m : Message Text)
  | failed
  | ended

/-- One turn of the loop of `run_once`: what has happened to the cancel channel and what
other writers have made of the scene since the last turn, and what there is to read. -/
structure Turn (Text : Type) where
  signals : List (Watch.Signal Bool) := []
  others : Scene Text → Scene Text := id
  read : Option (Item Text) := none

/-- What a call of `run_once` meets. -/
structure Session (Text : Type) where
  /-- The signals that come while it connects to the endpoint. -/
  connecting : List (Watch.Signal Bool) := []
  accepted : Bool
  turns : List (Turn Text) := []

/-- What the adapter shares with the rest of the server. -/
structure Shared (Text : Type) where
  cancel : Watch Bool
  scene : Scene Text

def Shared.hear (s : Shared Text) (signals : List (Watch.Signal Bool)) : Shared Text :=
  { s with cancel := s.cancel.afterAll signals }

/-- Apply one text frame to the scene; `none` if nothing is produced. -/
def applyPayload (T : TextLayer Text) (scene : Scene Text) (root : String) (payload : Text) :
    Option (Scene Text) :=
  match T.fromText payload with
  | .error _ => none
  | .ok value =>
      let pairs := flattenIntoPairs root value
      if pairs.isEmpty then none else (scene.emit pairs).toOption

/-- The loop of `run_once`, whose receiver saw the value `seen` last. There is no outcome
as long as the session is open. -/
def readLoop (T : TextLayer Text) (config : WsSubscribeConfig) :
    Nat → Shared Text → Bool → List (Turn Text) → Option Outcome × Shared Text
  | _, shared, _, [] => (none, shared)
  | seen, shared, produced, turn :: turns =>
      let shared : Shared Text :=
        { cancel := shared.cancel.afterAll turn.signals, scene := turn.others shared.scene }
      -- the select is biased towards the cancel channel
      match shared.cancel.changed seen with
      | some (.error ()) => (some .cancelled, shared)
      | some (.ok version) =>
          if shared.cancel.value then (some .cancelled, shared)
          else readLoop T config version shared produced turns
      | none =>
          match turn.read with
          | some (.message (.text payload)) =>
              match applyPayload T shared.scene config.writesTo payload with
              | some scene => readLoop T config seen { shared with scene } true turns
              | none => readLoop T config seen shared produced turns
          | some (.message .close) | some .failed | some .ended =>
              (some (if produced then .connected else .disconnected), shared)
          | some (.message _) | none => readLoop T config seen shared produced turns

/-- `run_once` with a receiver that saw the value `seen` last. -/
def runOnce (T : TextLayer Text) (config : WsSubscribeConfig) (seen : Nat) (shared : Shared Text)
    (session : Session Text) : Option Outcome × Shared Text :=
  let shared := shared.hear session.connecting
  if session.accepted then readLoop T config seen shared false session.turns
  else (some .disconnected, shared)

/-- Signals that come some time after a wait has begun. -/
structure Interruption where
  elapsed : Nat := 0
  signals : List (Watch.Signal Bool) := []

/-- The wait for `backoff` or for the cancel channel: the time that passes, and whether the
loop is left. -/
def wait (backoff seen : Nat) (cancel : Watch Bool) (i : Interruption) : Nat × Bool :=
  match cancel.changed seen with
  | some _ => (0, cancel.value)
  | none =>
      let later := cancel.afterAll i.signals
      if i.elapsed < backoff ∧ (later.changed seen).isSome then (i.elapsed, later.value)
      else (backoff, false)

/-- One attempt to connect, and the wait that follows it. -/
structure Attempt where
  outcome : Option Outcome
  waited : Nat := 0
  /-- The wait ended in a cancellation. -/
  cancelled : Bool := false
deriving DecidableEq

/-- The inputs of one pass of the loop. -/
structure Round (Text : Type) where
  /-- The signals that come before the loop looks at the flag. -/
  before : List (Watch.Signal Bool) := []
  session : Session Text
  interruption : Interruption := {}

structure Feed (Text : Type) where
  shared : Shared Text
  backoff : Nat
  attempts : List Attempt
  /-- The loop makes no further pass. -/
  stopped : Bool

def Feed.start (config : WsSubscribeConfig) (shared : Shared Text) : Feed Text where
  shared := shared
  backoff := config.backoffInitial
  attempts := []
  stopped := false

def Feed.record (s : Feed Text) (shared : Shared Text) (attempt : Attempt) : Feed Text :=
  { s with shared, attempts := s.attempts ++ [attempt] }

/-- One pass of the loop of `spawn`, for a receiver that saw the value `seen` last. The loop
clones the receiver for each use, so that its own number never changes. -/
def pass (T : TextLayer Text) (config : WsSubscribeConfig) (seen : Nat) (s : Feed Text)
    (round : Round Text) : Option (Feed Text) :=
  if s.stopped then none
  else
    let shared := s.shared.hear round.before
    if shared.cancel.value then some { s with shared, stopped := true }
    else
      match runOnce T config seen shared round.session with
      | (some .disconnected, shared) =>
          let (waited, cancelled) := wait s.backoff seen shared.cancel round.interruption
          let s := s.record (shared.hear round.interruption.signals)
            { outcome := some .disconnected, waited, cancelled }
          if cancelled then some { s with stopped := true }
          else if durationMax < s.backoff * 2 then some { s with stopped := true }
          else some { s with backoff := min (s.backoff * 2) config.backoffMax }
      | (some .connected, shared) =>
          some { s.record shared { outcome := some .connected } with
            backoff := config.backoffInitial }
      | (outcome, shared) => some { s.record shared { outcome } with stopped := true }

/-! ## Backing off -/

/-- The number of disconnections in a row that a history ends in. -/
def streak (attempts : List Attempt) : Nat :=
  (attempts.reverse.takeWhile (·.outcome = some .disconnected)).length

/-- The wait after so many disconnections in a row and one more. -/
def backoffAfter (config : WsSubscribeConfig) (failures : Nat) : Nat :=
  min (config.backoffInitial * 2 ^ failures) config.backoffMax

/-- Between two attempts the adapter waits within the bounds of the configuration, and it
waits as long as the disconnections in a row demand unless it is cancelled. -/
structure BacksOff (config : WsSubscribeConfig) (attempts : List Attempt) : Prop where
  spaced : ∀ earlier first next, earlier ++ [first, next] <+: attempts →
    config.backoffInitial ≤ first.waited ∧ first.waited ≤ config.backoffMax
  doubled : ∀ earlier attempt, earlier ++ [attempt] <+: attempts →
    attempt.outcome = some .disconnected → attempt.cancelled = false →
      attempt.waited = backoffAfter config (streak earlier)

/-- The cancel channel leaves the wait to the timer: it has nothing to report when the wait
begins and nothing comes before the time is over, unless the flag is set by then. -/
def Rests (backoff seen : Nat) (cancel : Watch Bool) (i : Interruption) : Prop :=
  if cancel.changed seen = none then
    i.signals = [] ∨ backoff ≤ i.elapsed ∨ (cancel.afterAll i.signals).value = true
  else cancel.value = true

instance (backoff seen : Nat) (cancel : Watch Bool) (i : Interruption) :
    Decidable (Rests backoff seen cancel i) := inferInstanceAs (Decidable (ite ..))

/-- The last session did not produce a frame and the next wait is left to the timer. A pass
that only finds the flag set is not concerned. -/
def Undisturbed (T : TextLayer Text) (config : WsSubscribeConfig) (seen : Nat) (s : Feed Text)
    (round : Round Text) : Prop :=
  let shared := s.shared.hear round.before
  let met := runOnce T config seen shared round.session
  shared.cancel.value = true ∨
    (∀ last ∈ s.attempts.getLast?, last.outcome ≠ some .connected) ∧
      (met.1 = some .disconnected → Rests s.backoff seen met.2.cancel round.interruption)

instance (T : TextLayer Text) (config : WsSubscribeConfig) (seen : Nat) (s : Feed Text)
    (round : Round Text) : Decidable (Undisturbed T config seen s round) :=
  inferInstanceAs (Decidable (_ ∨ _))

theorem streak_concat (attempts : List Attempt) (a : Attempt) :
    streak (attempts ++ [a]) =
      if a.outcome = some .disconnected then streak attempts + 1 else 0 := by
  rw [streak, List.reverse_append, List.reverse_singleton, List.singleton_append,
    List.takeWhile_cons]
  by_cases failed : a.outcome = some .disconnected
  · simp [failed, streak]
  · simp [failed]

section Bounds

variable {config : WsSubscribeConfig}

theorem backoffAfter_zero (ordered : config.backoffInitial ≤ config.backoffMax) :
    backoffAfter config 0 = config.backoffInitial := by
  rw [backoffAfter, Nat.pow_zero, Nat.mul_one, Nat.min_eq_left ordered]

theorem backoffAfter_succ (failures : Nat) :
    backoffAfter config (failures + 1) =
      min (backoffAfter config failures * 2) config.backoffMax := by
  unfold backoffAfter
  rw [Nat.pow_succ, ← Nat.mul_assoc]
  omega

theorem le_backoffAfter (ordered : config.backoffInitial ≤ config.backoffMax) (failures : Nat) :
    config.backoffInitial ≤ backoffAfter config failures :=
  Nat.le_min.mpr ⟨Nat.le_mul_of_pos_right _ (Nat.two_pow_pos failures), ordered⟩

theorem backoffAfter_le (failures : Nat) : backoffAfter config failures ≤ config.backoffMax :=
  Nat.min_le_right ..

theorem backsOff_nil : BacksOff config [] where
  spaced earlier _ _ within := absurd (List.prefix_nil.mp within) (by simp)
  doubled earlier _ within := absurd (List.prefix_nil.mp within) (by simp)

/-- One attempt more bounds the wait before it and has a wait of its own. -/
theorem backsOff_concat {attempts : List Attempt} {a : Attempt} :
    BacksOff config (attempts ++ [a]) ↔ BacksOff config attempts ∧
      (∀ last ∈ attempts.getLast?,
        config.backoffInitial ≤ last.waited ∧ last.waited ≤ config.backoffMax) ∧
      (a.outcome = some .disconnected → a.cancelled = false →
        a.waited = backoffAfter config (streak attempts)) := by
  constructor
  · rintro ⟨spaced, doubled⟩
    refine ⟨⟨fun earlier first next within => ?_, fun earlier first within => ?_⟩,
      fun last ends => ?_, doubled attempts a List.prefix_rfl⟩
    · exact spaced earlier first next (within.trans (List.prefix_append ..))
    · exact doubled earlier first (within.trans (List.prefix_append ..))
    · obtain ⟨earlier, rfl⟩ := List.getLast?_eq_some_iff.mp ends
      exact spaced earlier last a (by simp)
  · rintro ⟨⟨spaced, doubled⟩, bounded, waits⟩
    refine ⟨fun earlier first next within => ?_, fun earlier first within => ?_⟩
    · rcases List.prefix_concat_iff.mp within with whole | within
      · have split : (earlier ++ [first]) ++ [next] = attempts ++ [a] := by simpa using whole
        obtain ⟨rfl, _⟩ := List.append_inj' split rfl
        exact bounded first (by simp)
      · exact spaced earlier first next within
    · rcases List.prefix_concat_iff.mp within with whole | within
      · obtain ⟨rfl, last⟩ := List.append_inj' whole rfl
        obtain rfl := List.singleton_inj.mp last
        exact waits
      · exact doubled earlier first within

end Bounds

/-- A wait that is left to the timer is not cut short but by cancellation, and conversely. -/
theorem rests_iff {backoff seen : Nat} {cancel : Watch Bool} {i : Interruption}
    (positive : 0 < backoff) :
    Rests backoff seen cancel i ↔
      ((wait backoff seen cancel i).2 = false → (wait backoff seen cancel i).1 = backoff) := by
  unfold Rests wait
  cases now : cancel.changed seen with
  | some answer =>
      have late : (0 : Nat) ≠ backoff := Nat.ne_of_lt positive
      simp [late]
  | none =>
      have answered := Watch.changed_afterAll_eq_none_iff now i.signals
      by_cases early : i.elapsed < backoff ∧ ((cancel.afterAll i.signals).changed seen).isSome
      · have stirred : i.signals ≠ [] := by
          intro nothing
          simp [answered.mpr nothing] at early
        have short : i.elapsed ≠ backoff := Nat.ne_of_lt early.1
        simp [early, stirred, short]
      · have timer : i.signals = [] ∨ backoff ≤ i.elapsed := by
          by_contra neither
          rw [not_or] at neither
          refine early ⟨Nat.lt_of_not_le neither.2, ?_⟩
          exact Option.isSome_iff_ne_none.mpr (mt answered.mp neither.1)
        rw [if_neg early, if_pos rfl, ← or_assoc]
        exact iff_of_true (.inl timer) fun _ => rfl

/-! ## Passes -/

/-- What an attempt with a given outcome and wait makes of the state of the loop. -/
inductive Move (config : WsSubscribeConfig) (s t : Feed Text) (waits : Nat × Bool) :
    Option Outcome → Prop where
  | disconnected
      (attempts : t.attempts = s.attempts ++ [⟨some .disconnected, waits.1, waits.2⟩])
      (goesOn : t.stopped = false →
        waits.2 = false ∧ t.backoff = min (s.backoff * 2) config.backoffMax) :
      Move config s t waits (some .disconnected)
  | connected (attempts : t.attempts = s.attempts ++ [{ outcome := some .connected }])
      (backoff : t.backoff = config.backoffInitial) : Move config s t waits (some .connected)
  | stops {outcome : Option Outcome} (failed : outcome ≠ some .disconnected)
      (attempts : t.attempts = s.attempts ++ [⟨outcome, 0, false⟩]) (stopped : t.stopped = true) :
      Move config s t waits outcome

variable {T : TextLayer Text} {config : WsSubscribeConfig} {seen : Nat}

theorem pass_cases {s t : Feed Text} {round : Round Text}
    (h : pass T config seen s round = some t) :
    let shared := s.shared.hear round.before
    let met := runOnce T config seen shared round.session
    s.stopped = false ∧
      (shared.cancel.value = true ∧ t.attempts = s.attempts ∧ t.stopped = true ∨
        shared.cancel.value = false ∧
          Move config s t (wait s.backoff seen met.2.cancel round.interruption) met.1) := by
  unfold pass at h
  by_cases stopped : s.stopped = true
  · rw [if_pos stopped] at h
    cases h
  rw [if_neg stopped] at h
  refine ⟨Bool.eq_false_iff.mpr stopped, ?_⟩
  by_cases flag : (s.shared.hear round.before).cancel.value = true
  · simp only [flag, if_true] at h
    cases h
    exact .inl ⟨flag, rfl, rfl⟩
  right
  refine ⟨Bool.eq_false_iff.mpr flag, ?_⟩
  simp only [flag, Bool.false_eq_true, if_false] at h
  rcases met : runOnce T config seen (s.shared.hear round.before) round.session with
    ⟨outcome, shared⟩
  rw [met] at h
  match outcome with
  | some .disconnected =>
      rcases waits : wait s.backoff seen shared.cancel round.interruption with ⟨waited, cancelled⟩
      simp only [waits] at h ⊢
      by_cases left : cancelled = true
      · rw [if_pos left] at h
        cases h
        exact .disconnected rfl nofun
      rw [if_neg left] at h
      split at h
      · cases h
        exact .disconnected rfl nofun
      · cases h
        exact .disconnected rfl fun _ => ⟨Bool.eq_false_iff.mpr left, rfl⟩
  | some .connected =>
      cases h
      exact .connected rfl rfl
  | some .cancelled | none =>
      cases h
      exact .stops (by simp) rfl rfl

/-- A loop that goes on has doubled its wait once for each disconnection in a row, and has
not left its last attempt by a cancellation. -/
structure Tracks (config : WsSubscribeConfig) (s : Feed Text) : Prop where
  backoff : s.backoff = backoffAfter config (streak s.attempts)
  last : ∀ last ∈ s.attempts.getLast?, last = { outcome := some .connected } ∨
    last.outcome = some .disconnected ∧ last.cancelled = false

theorem tracks_start (ordered : config.backoffInitial ≤ config.backoffMax)
    (shared : Shared Text) : Tracks config (Feed.start config shared) where
  backoff := (backoffAfter_zero ordered).symm
  last _ ends := by cases ends

theorem tracks_pass {s t : Feed Text} {round : Round Text}
    (ordered : config.backoffInitial ≤ config.backoffMax) (tracks : Tracks config s)
    (h : pass T config seen s round = some t) (goesOn : t.stopped = false) : Tracks config t := by
  obtain ⟨_, ⟨_, _, stopped⟩ | ⟨_, move⟩⟩ := pass_cases h
  · cases stopped.symm.trans goesOn
  generalize (runOnce T config seen _ round.session).1 = outcome at move
  cases move with
  | disconnected attempts next =>
      obtain ⟨kept, backoff⟩ := next goesOn
      refine ⟨?_, fun last ends => ?_⟩
      · rw [backoff, attempts, streak_concat, if_pos rfl, backoffAfter_succ, tracks.backoff]
      · rw [attempts, List.getLast?_concat] at ends
        cases ends
        exact .inr ⟨rfl, kept⟩
  | connected attempts backoff =>
      refine ⟨?_, fun last ends => ?_⟩
      · rw [backoff, attempts, streak_concat, if_neg (by simp), backoffAfter_zero ordered]
      · rw [attempts, List.getLast?_concat] at ends
        cases ends
        exact .inl rfl
  | stops _ _ stopped => cases stopped.symm.trans goesOn

/-- The wait after the last attempt is within the bounds unless it is missing. -/
private theorem bounded_iff {s : Feed Text} (positive : 0 < config.backoffInitial)
    (ordered : config.backoffInitial ≤ config.backoffMax) (tracks : Tracks config s)
    (backs : BacksOff config s.attempts) :
    (∀ last ∈ s.attempts.getLast?,
        config.backoffInitial ≤ last.waited ∧ last.waited ≤ config.backoffMax) ↔
      ∀ last ∈ s.attempts.getLast?, last.outcome ≠ some .connected := by
  refine forall₂_congr fun last ends => ?_
  rcases tracks.last last ends with rfl | ⟨failed, kept⟩
  · refine iff_of_false (fun bounds => ?_) fun apart => apart rfl
    exact absurd bounds.1 (Nat.not_le_of_gt positive)
  · obtain ⟨earlier, split⟩ := List.getLast?_eq_some_iff.mp ends
    have waited : last.waited = backoffAfter config (streak earlier) :=
      backs.doubled earlier last (split ▸ List.prefix_rfl) failed kept
    have apart : last.outcome ≠ some .connected := by simp [failed]
    rw [waited]
    exact iff_of_true ⟨le_backoffAfter ordered _, backoffAfter_le _⟩ apart

theorem backsOff_pass {s t : Feed Text} {round : Round Text}
    (positive : 0 < config.backoffInitial) (ordered : config.backoffInitial ≤ config.backoffMax)
    (tracks : Tracks config s) (h : pass T config seen s round = some t) :
    BacksOff config t.attempts ↔
      BacksOff config s.attempts ∧ Undisturbed T config seen s round := by
  have nonzero : 0 < s.backoff := by
    rw [tracks.backoff]
    exact Nat.lt_of_lt_of_le positive (le_backoffAfter ordered _)
  obtain ⟨_, ⟨flag, attempts, _⟩ | ⟨flag, move⟩⟩ := pass_cases h
  · rw [attempts, Undisturbed]
    exact (and_iff_left (.inl flag)).symm
  simp only [Undisturbed, flag, Bool.false_eq_true, false_or]
  refine Iff.trans ?_ (and_congr_right fun backs =>
    and_congr_left' (bounded_iff positive ordered tracks backs))
  generalize (runOnce T config seen _ round.session).1 = outcome at move
  cases move with
  | disconnected attempts _ =>
      rw [attempts, backsOff_concat, rests_iff nonzero, tracks.backoff]
  | connected attempts _ =>
      rw [attempts, backsOff_concat]
      simp
  | stops failed attempts _ =>
      rw [attempts, backsOff_concat]
      simp [failed]

/-! ## Runs -/

private theorem backsOff_run {s t : Feed Text} {rounds : List (Round Text)}
    (positive : 0 < config.backoffInitial) (ordered : config.backoffInitial ≤ config.backoffMax)
    (tracks : s.stopped = false → Tracks config s)
    (reach : run (pass T config seen) s rounds = some t) :
    BacksOff config t.attempts ↔ BacksOff config s.attempts ∧
      Along (pass T config seen) (Undisturbed T config seen) s rounds := by
  induction rounds generalizing s with
  | nil =>
      cases reach
      exact (and_iff_left trivial).symm
  | cons round rounds ih =>
      obtain ⟨m, first, rest⟩ := run_cons_eq_some.mp reach
      have running : s.stopped = false := (pass_cases first).1
      have later := ih (fun goesOn => tracks_pass ordered (tracks running) first goesOn) rest
      have only : (∀ m', pass T config seen s round = some m' →
          Along (pass T config seen) (Undisturbed T config seen) m' rounds) ↔
            Along (pass T config seen) (Undisturbed T config seen) m rounds :=
        ⟨fun along => along m first, fun along m' other => by
          cases first.symm.trans other
          exact along⟩
      rw [later, backsOff_pass positive ordered (tracks running) first, Along, only, and_assoc]

/-- A run backs off exactly when no session that produced a frame is followed by another
attempt and every wait is left to the timer or ends in a cancellation. -/
theorem backsOff_iff (positive : 0 < config.backoffInitial)
    (ordered : config.backoffInitial ≤ config.backoffMax) (T : TextLayer Text) (seen : Nat)
    (shared : Shared Text) {rounds : List (Round Text)} {t : Feed Text}
    (reach : run (pass T config seen) (Feed.start config shared) rounds = some t) :
    BacksOff config t.attempts ↔
      Along (pass T config seen) (Undisturbed T config seen) (Feed.start config shared) rounds := by
  have start := tracks_start ordered shared
  rw [backsOff_run positive ordered (fun _ => start) reach]
  exact and_iff_right backsOff_nil

private def values : TextLayer Value := valuePlatform.toTextLayer

/-- A channel on which nothing was sent, and an empty scene. -/
def quiet : Shared Value where
  cancel := { value := false, version := 0, closed := false }
  scene := Scene.new "studio" "v1"

private def feed : WsSubscribeConfig := { url := "wss://feed", writesTo := "game.minute" }

private def refused : Round Value := { session := { accepted := false } }

/-- The feed sends one number and ends the session. -/
private def flapping : Round Value where
  session := {
    accepted := true
    turns := [{ read := some (.message (.text (.number (.posInt 42)))) }, { read := some .ended }] }

theorem backsOff_iff_refused :
    ∃ t, run (pass values feed 0) (Feed.start feed quiet) [refused, refused, refused] = some t ∧
      t.attempts.map Attempt.waited = [250000000, 500000000, 1000000000] ∧
      BacksOff feed t.attempts := by
  have ends : (run (pass values feed 0) (Feed.start feed quiet) [refused, refused, refused]).any
      (fun t => t.attempts.map Attempt.waited = [250000000, 500000000, 1000000000]) = true := by
    decide
  obtain ⟨t, reach, waits⟩ := exists_run_of_any ends
  have steps : Along (pass values feed 0) (Undisturbed values feed 0) (Feed.start feed quiet)
      [refused, refused, refused] := by
    decide
  exact ⟨t, reach, waits,
    (backsOff_iff (by decide) (by decide) values 0 quiet reach).mpr steps⟩

private theorem not_backsOff {first next : Attempt} (unwaited : first.waited = 0) :
    ¬BacksOff feed [first, next] := by
  intro backs
  have bounds := backs.spaced [] first next List.prefix_rfl
  rw [unwaited] at bounds
  exact absurd bounds.1 (by decide)

/-- A feed that sends a frame and hangs up is connected to again at once, and so is one that
cannot be reached once the sender of the cancel flag is gone. -/
theorem backsOff_fails :
    (∃ t, run (pass values feed 0) (Feed.start feed quiet) [flapping, flapping] = some t ∧
        t.attempts = [⟨some .connected, 0, false⟩, ⟨some .connected, 0, false⟩] ∧
        t.shared.cancel.value = false ∧ ¬BacksOff feed t.attempts) ∧
      ∃ t, run (pass values feed 0) (Feed.start feed quiet)
          [{ refused with before := [.close] }, refused] = some t ∧
        t.attempts = [⟨some .disconnected, 0, false⟩, ⟨some .disconnected, 0, false⟩] ∧
        t.shared.cancel.value = false ∧ ¬BacksOff feed t.attempts := by
  have flaps : (run (pass values feed 0) (Feed.start feed quiet) [flapping, flapping]).any
      (fun t => t.attempts = [⟨some .connected, 0, false⟩, ⟨some .connected, 0, false⟩] ∧
        t.shared.cancel.value = false) = true := by
    decide
  have dropped : (run (pass values feed 0) (Feed.start feed quiet)
      [{ refused with before := [.close] }, refused]).any
      (fun t => t.attempts = [⟨some .disconnected, 0, false⟩, ⟨some .disconnected, 0, false⟩] ∧
        t.shared.cancel.value = false) = true := by
    decide
  refine ⟨?_, ?_⟩
  · obtain ⟨t, reach, attempts, flag⟩ := exists_run_of_any flaps
    exact ⟨t, reach, attempts, flag, attempts ▸ not_backsOff rfl⟩
  · obtain ⟨t, reach, attempts, flag⟩ := exists_run_of_any dropped
    exact ⟨t, reach, attempts, flag, attempts ▸ not_backsOff rfl⟩

end WsSubscribe

end Lumencast.Server
