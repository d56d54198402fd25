import Lumencast.Protocol.Codec
import Lumencast.Server.Role
import Lumencast.Server.Scene

/-!
# Handling one client frame

The part of the connection handler that does not touch shared state: decoding a
text frame, the rate limit, and the validation of an input against role,
declarations and value shape. The result is a `Verdict`, which the connection
carries out. Every rejection is one `error` frame, and an accepted input is one
emission with all its pairs.
-/

namespace Lumencast.Server

open Foundation Protocol

variable {Text : Type}

/-- Wall clock and monotonic clock as one handler step reads them. -/
structure Clock where
  /-- Nanoseconds of the monotonic clock. -/
  instant : Nat
  unixSecs : Nat
  millis : Nat
  deriving DecidableEq, Repr

/-- Year, month, day, hour, minute and second of a Unix time. -/
def epochToCalendar (secs : Nat) : Nat × Nat × Nat × Nat × Nat × Nat :=
  let days := secs / 86400
  let rem := secs % 86400
  let hour := rem / 3600
  let minute := rem % 3600 / 60
  let second := rem % 60
  let z := days + 719468
  let era := z / 146097
  let doe := z - era * 146097
  let yoe := (doe - doe / 1460 + doe / 36524 - doe / 146096) / 365
  let y := yoe + era * 400
  let doy := doe - (365 * yoe + yoe / 4 - yoe / 100)
  let mp := (5 * doy + 2) / 153
  let d := doy - (153 * mp + 2) / 5 + 1
  let m := if mp < 10 then mp + 3 else mp - 9
  let year := if m ≤ 2 then y + 1 else y
  (year, m, d, hour, minute, second)

/-- Decimal digits, padded with zeros to the given width. -/
def padded (width n : Nat) : String :=
  let digits := toString n
  String.ofList (List.replicate (width - digits.length) '0') ++ digits

def nowIso (clock : Clock) : String :=
  let (year, month, day, hour, minute, second) := epochToCalendar clock.unixSecs
  padded 4 year ++ "-" ++ padded 2 month ++ "-" ++ padded 2 day ++ "T" ++ padded 2 hour ++ ":" ++
    padded 2 minute ++ ":" ++ padded 2 second ++ "." ++ padded 3 clock.millis ++ "Z"

/-- One second of the monotonic clock. -/
def second : Nat := 1000000000

/-- The per-connection input limiter. -/
structure RateBucket where
  limit : Nat
  used : Nat
  windowStart : Nat
  deriving DecidableEq, Repr

namespace RateBucket

def new (limit now : Nat) : RateBucket := { limit, used := 0, windowStart := now }

/-- The bucket with its window restarted when a second has passed. -/
def refreshed (b : RateBucket) (now : Nat) : RateBucket :=
  if second ≤ now - b.windowStart then { b with windowStart := now, used := 0 } else b

def allow (b : RateBucket) (now : Nat) : Bool × RateBucket :=
  if b.limit = 0 then (true, b)
  else
    let b := b.refreshed now
    if b.limit ≤ b.used then (false, b) else (true, { b with used := b.used + 1 })

end RateBucket

/-- The arguments of one `send_error_with_path`. -/
structure ErrorReply where
  code : ErrorCode
  message : String
  recoverable : Bool
  path : Option String := none
  deriving DecidableEq, Repr

/-- The error frame at the sequence number the current scene has. -/
def ErrorReply.frame (reply : ErrorReply) (seq : Nat) (clock : Clock) : ServerFrame :=
  .error { seq, code := reply.code, message := reply.message, recoverable := reply.recoverable
           retryAfterMs := none, path := reply.path, ts := some (nowIso clock) }

/-- What the handler does about one client frame. -/
inductive Verdict where
  /-- Send a frame that carries no sequence number. -/
  | answer (frame : Pong)
  /-- Send an error frame, then stop or go on. -/
  | refuse (reply : ErrorReply) (stop : Bool)
  | stop
  /-- Run an emission of validated patches. -/
  | publish (patches : List Patch) (cause : Option Cause)
  | ignore
  deriving DecidableEq

/-- One pass of the validation loop of `handle_input`. -/
def checkPatch (T : TextLayer Text) (scene : Scene Text) (identity : Identity) (p : Patch) :
    Option ErrorReply :=
  if !identity.role.canWrite p.path identity.paths then
    some { code := .writeForbidden
           message := "path " ++ p.path.str ++ " not writable by role " ++ identity.role.display
           recoverable := true
           path := some p.path.str }
  else
    match scene.checkInputPatch T p with
    | .error r =>
        some { code := r.code, message := r.message, recoverable := true, path := some r.path }
    | .ok () =>
        if !p.isValueLegal then
          some { code := .invalidValue
                 message := "path " ++ p.path.str ++ " value MUST NOT be a JSON object"
                 recoverable := true
                 path := some p.path.str }
        else none

/-- The provenance of an input that carries a `client_msg_id`. -/
def inputCause (identity : Identity) (input : Input) : Option Cause :=
  input.clientMsgId.map fun msgId =>
    let subject := if identity.subject.isEmpty then identity.role.display else identity.subject
    { source := identity.role.display ++ ":" ++ subject, inputId := some msgId }

def handleInput (T : TextLayer Text) (scene : Scene Text) (identity : Identity)
    (rate : RateBucket) (now : Nat) (input : Input) : Verdict × RateBucket :=
  if !identity.role.canInput then
    (.refuse { code := .writeForbidden, message := "role cannot send input", recoverable := true
               path := input.patches.head?.map fun p => p.path.str } false, rate)
  else if input.patches.isEmpty then
    (.refuse { code := .invalidValue, message := "input patches MUST NOT be empty"
               recoverable := true } false, rate)
  else
    match rate.allow now with
    | (false, rate) =>
        (.refuse { code := .rateLimit, message := "input rate limit exceeded"
                   recoverable := true } false, rate)
    | (true, rate) =>
        match input.patches.findSome? (checkPatch T scene identity) with
        | some reply => (.refuse reply false, rate)
        | none =>
            match parsePairs (writes input.patches) with
            | .error e =>
                (.refuse { code := .internal, message := e.display T, recoverable := true } false,
                  rate)
            | .ok [] => (.ignore, rate)
            | .ok patches => (.publish patches (inputCause identity input), rate)

def handleTextFrame (T : TextLayer Text) (scene : Scene Text) (identity : Identity)
    (rate : RateBucket) (now : Nat) (text : Text) : Verdict × RateBucket :=
  match decodeClient T text with
  | .error (.invalidValue _ message path) =>
      (.refuse { code := .invalidValue, message, recoverable := true, path } false, rate)
  | .error (.json e) =>
      (.refuse { code := .invalidValue, message := "malformed JSON: " ++ T.showError e
                 recoverable := false } true, rate)
  | .error other =>
      (.refuse { code := .internal, message := other.display T.showError
                 recoverable := false } true, rate)
  | .ok (.ping ping) => (.answer { nonce := ping.nonce }, rate)
  | .ok (.subscribe _) =>
      (.refuse { code := .internal, message := "duplicate subscribe", recoverable := false } true,
        rate)
  | .ok (.input input) => handleInput T scene identity rate now input
  | .ok (.unsubscribe _) => (.stop, rate)

/-- The scene after the verdict has been carried out without interruption. -/
def Verdict.apply (verdict : Verdict) (scene : Scene Text) : Scene Text :=
  match verdict with
  | publish patches cause => scene.publish patches cause
  | _ => scene

/-- A patch passes every check of the validation loop. -/
structure Admitted (T : TextLayer Text) (scene : Scene Text) (identity : Identity)
    (p : Patch) : Prop where
  writable : identity.role.canWrite p.path identity.paths = true
  declared : scene.checkInputPatch T p = .ok ()
  legal : p.value.isObject = false

theorem checkPatch_eq_none {T : TextLayer Text} {scene : Scene Text} {identity : Identity}
    {p : Patch} : checkPatch T scene identity p = none ↔ Admitted T scene identity p := by
  unfold checkPatch
  cases writable : identity.role.canWrite p.path identity.paths with
  | false => simp [show ¬Admitted T scene identity p from fun h => by simp [h.writable] at writable]
  | true =>
      cases declared : scene.checkInputPatch T p with
      | error r =>
          simp [show ¬Admitted T scene identity p from fun h => by simp [h.declared] at declared]
      | ok u =>
          cases legal : p.value.isObject with
          | true =>
              simp [Patch.isValueLegal, legal,
                show ¬Admitted T scene identity p from fun h => by simp [h.legal] at legal]
          | false => simp [Patch.isValueLegal, legal, Admitted.mk writable declared legal]

/-- The rule that an error code stands for is broken by a pair. -/
def Breaks (T : TextLayer Text) (scene : Scene Text) (identity : Identity) (code : ErrorCode)
    (path : String) (value : Value) : Prop :=
  match code with
  | .writeForbidden => identity.role.canWrite ⟨path⟩ identity.paths = false
  | .unknownPath => ∃ declared, scene.declaredInputs = some declared ∧ declared[path]? = none
  | .invalidValue =>
      ¬LeafPath.Valid path ∨ value.isObject = true ∨
        ∃ declared spec, scene.declaredInputs = some declared ∧ declared[path]? = some spec ∧
          ¬spec.Admits T value
  | _ => False

theorem checkInputPatch_eq_error {T : TextLayer Text} {scene : Scene Text} {p : Patch}
    {identity : Identity} {r : InputRejection} (h : scene.checkInputPatch T p = .error r) :
    r.path = p.path.str ∧ Breaks T scene identity r.code p.path.str p.value := by
  unfold Scene.checkInputPatch at h
  cases declared : scene.declaredInputs with
  | none => simp [declared] at h
  | some inputs =>
      simp only [declared] at h
      cases found : inputs[p.path.str]? with
      | none =>
          simp only [found, Except.error.injEq] at h
          subst h
          exact ⟨rfl, inputs, declared, found⟩
      | some spec =>
          simp only [found] at h
          cases violated : checkConstraint T spec p.value with
          | none => simp [violated] at h
          | some message =>
              simp only [violated, Except.error.injEq] at h
              subst h
              refine ⟨rfl, .inr (.inr ⟨inputs, spec, declared, found, ?_⟩)⟩
              rw [InputSpec.Admits, violated]
              simp

/-- A refusal of the validation loop names the patch and the rule it breaks. -/
theorem checkPatch_eq_some {T : TextLayer Text} {scene : Scene Text} {identity : Identity}
    {p : Patch} {reply : ErrorReply} (h : checkPatch T scene identity p = some reply) :
    reply.recoverable = true ∧ reply.path = some p.path.str ∧
      Breaks T scene identity reply.code p.path.str p.value := by
  unfold checkPatch at h
  cases writable : identity.role.canWrite p.path identity.paths with
  | false =>
      simp only [writable, Bool.not_false, if_true, Option.some.injEq] at h
      subst h
      exact ⟨rfl, rfl, writable⟩
  | true =>
      simp only [writable, Bool.not_true, Bool.false_eq_true, if_false] at h
      cases declared : scene.checkInputPatch T p with
      | error r =>
          obtain ⟨path, breaks⟩ : r.path = p.path.str ∧
              Breaks T scene identity r.code p.path.str p.value := checkInputPatch_eq_error declared
          simp only [declared, Option.some.injEq] at h
          subst h
          exact ⟨rfl, congrArg some path, breaks⟩
      | ok u =>
          cases legal : p.isValueLegal with
          | true => simp [declared, legal] at h
          | false =>
              simp only [declared, legal, Bool.not_false, if_true, Option.some.injEq] at h
              subst h
              exact ⟨rfl, rfl, .inr (.inl (by simpa [Patch.isValueLegal] using legal))⟩

/-- The code of a broken rule is not the one for faults of the server. -/
theorem Breaks.ne_internal {T : TextLayer Text} {scene : Scene Text} {identity : Identity}
    {code : ErrorCode} {path : String} {value : Value}
    (breaks : Breaks T scene identity code path value) : code ≠ .internal := by
  rintro rfl
  exact breaks

/-- The validation loop finds nothing exactly when every patch is admitted. -/
theorem findSome?_checkPatch_eq_none {T : TextLayer Text} {scene : Scene Text}
    {identity : Identity} {patches : List Patch} :
    patches.findSome? (checkPatch T scene identity) = none ↔
      ∀ p ∈ patches, Admitted T scene identity p := by
  simp only [List.findSome?_eq_none_iff, checkPatch_eq_none]

/-- The verdicts on an input: of the gate that holds it back, or of the last one. -/
inductive InputVerdict (T : TextLayer Text) (scene : Scene Text) (identity : Identity)
    (rate : RateBucket) (now : Nat) (input : Input) : Verdict × RateBucket → Prop
  | role (refused : identity.role.canInput = false) :
      InputVerdict T scene identity rate now input
        (.refuse { code := .writeForbidden, message := "role cannot send input", recoverable := true
                   path := input.patches.head?.map fun p => p.path.str } false, rate)
  | empty (missing : input.patches = []) : InputVerdict T scene identity rate now input
      (.refuse { code := .invalidValue, message := "input patches MUST NOT be empty"
                 recoverable := true } false, rate)
  | limit {rate' : RateBucket} (refused : rate.allow now = (false, rate')) :
      InputVerdict T scene identity rate now input
        (.refuse { code := .rateLimit, message := "input rate limit exceeded"
                   recoverable := true } false, rate')
  | patch {rate' : RateBucket} {p : Patch} {reply : ErrorReply} (member : p ∈ input.patches)
      (refused : checkPatch T scene identity p = some reply) :
      InputVerdict T scene identity rate now input (.refuse reply false, rate')
  | emission {rate' : RateBucket} {e : ServerError}
      (failed : parsePairs (writes input.patches) = .error e) :
      InputVerdict T scene identity rate now input
        (.refuse { code := .internal, message := e.display T, recoverable := true } false, rate')
  | publish {rate' : RateBucket} {patches : List Patch} (role : identity.role.canInput = true)
      (nonempty : input.patches ≠ []) (allowed : rate.allow now = (true, rate'))
      (admitted : ∀ p ∈ input.patches, Admitted T scene identity p)
      (parsed : parsePairs (writes input.patches) = .ok patches) :
      InputVerdict T scene identity rate now input
        (.publish patches (inputCause identity input), rate')

theorem inputVerdict_handleInput (T : TextLayer Text) (scene : Scene Text) (identity : Identity)
    (rate : RateBucket) (now : Nat) (input : Input) :
    InputVerdict T scene identity rate now input
      (handleInput T scene identity rate now input) := by
  unfold handleInput
  cases role : identity.role.canInput with
  | false => exact .role role
  | true =>
      by_cases nonempty : input.patches = []
      · simpa [nonempty] using InputVerdict.empty nonempty
      · simp only [Bool.not_true, Bool.false_eq_true, if_false, List.isEmpty_iff, nonempty]
        rcases allowed : rate.allow now with ⟨_ | _, rate'⟩
        · exact .limit allowed
        · cases found : input.patches.findSome? (checkPatch T scene identity) with
          | some reply =>
              obtain ⟨p, member, refused⟩ := List.exists_of_findSome?_eq_some found
              exact .patch member refused
          | none =>
              have admitted := findSome?_checkPatch_eq_none.mp found
              cases parsed : parsePairs (writes input.patches) with
              | error e => exact .emission parsed
              | ok patches =>
                  cases patches with
                  | nil =>
                      have unwritten := writes_of_parsePairs parsed
                      exact absurd (List.map_eq_nil_iff.mp unwritten.symm) nonempty
                  | cons p patches => exact .publish role nonempty allowed admitted parsed

/-- An input is published exactly when every gate lets it through. -/
theorem handleInput_eq_publish {T : TextLayer Text} {scene : Scene Text} {identity : Identity}
    {rate rate' : RateBucket} {now : Nat} {input : Input} {patches : List Patch}
    {cause : Option Cause} :
    handleInput T scene identity rate now input = (.publish patches cause, rate') ↔
      identity.role.canInput = true ∧ input.patches ≠ [] ∧ rate.allow now = (true, rate') ∧
      (∀ p ∈ input.patches, Admitted T scene identity p) ∧
      parsePairs (writes input.patches) = .ok patches ∧ cause = inputCause identity input := by
  constructor
  · intro h
    have verdict := inputVerdict_handleInput T scene identity rate now input
    rw [h] at verdict
    cases verdict with
    | publish role nonempty allowed admitted parsed =>
        exact ⟨role, nonempty, allowed, admitted, parsed, rfl⟩
  · rintro ⟨role, nonempty, allowed, admitted, parsed, rfl⟩
    have found := findSome?_checkPatch_eq_none.mpr admitted
    cases patches with
    | nil => exact absurd (List.map_eq_nil_iff.mp (writes_of_parsePairs parsed).symm) nonempty
    | cons p patches => simp [handleInput, role, nonempty, allowed, found, parsed]

/-- A text frame is published exactly when it decodes to an input that is. -/
theorem handleTextFrame_eq_publish {T : TextLayer Text} {scene : Scene Text}
    {identity : Identity} {rate rate' : RateBucket} {now : Nat} {text : Text}
    {patches : List Patch} {cause : Option Cause} :
    handleTextFrame T scene identity rate now text = (.publish patches cause, rate') ↔
      ∃ input, decodeClient T text = .ok (.input input) ∧
        handleInput T scene identity rate now input = (.publish patches cause, rate') := by
  unfold handleTextFrame
  rcases decoded : decodeClient T text with e | frame
  · cases e <;> simp
  · cases frame <;> simp

end Lumencast.Server
