import Lumencast.Conformance.Scenario

/-!
# The scenario player

The player sets a scenario up, opens a socket, and takes the steps one after the
other: it sends, it waits for frames and compares them, and it asks the control
plane for the state. From the frames it receives it rebuilds the state in a shadow.
The control plane, the socket and the clock are the `Driver`, which is a parameter.

`Conversation` says, without the player, which exchanges with a server are as a
scenario has them. `runScenario_ok_iff` is the agreement of the two.
-/

namespace Lumencast.Conformance

open Foundation Protocol

variable {Text σ : Type}

/-! ## The socket -/

structure CloseFrame where
  code : Nat
  reason : String
  deriving DecidableEq, Repr

inductive WsMessage (Text : Type) where
  | text (t : Text)
  | binary
  | ping
  | pong
  | close (frame : Option CloseFrame)
  | frame
  deriving DecidableEq

/-- What a socket yields: an error, a message, or its end. -/
abbrev SocketItem (Text : Type) := Option (Except String (WsMessage Text))

/-- What the player drives. -/
structure Driver (Text σ : Type) where
  http : Transport Text σ
  urlParses : String → Bool
  connect : String → Effect σ String Unit
  send : Text → Effect σ String Unit
  next : σ → SocketItem Text × σ
  /-- The next item, unless this many milliseconds elapse. -/
  nextWithin : Nat → σ → Option (SocketItem Text) × σ
  /-- The socket goes out of scope. -/
  dropSocket : σ → σ

/-- The renderings in error texts that the values do not determine. -/
structure Rendering (Text : Type) where
  display : Value → String
  debug : Value → String
  message : WsMessage Text → String
  http : HttpError → String
  body : Option Text → String

inductive PlayerError (Text : Type) where
  | control (e : ControlError Text)
  | ws (e : String)
  | json (e : JsonError)
  | stepFailed (stepIndex : Nat) (message : String)
  | closed
  | expectedText (got : String)
  deriving DecidableEq

def ControlError.display (R : Rendering Text) : ControlError Text → String
  | http e => "http: " ++ R.http e
  | status code body => "control plane returned " ++ toString code ++ ": " ++ R.body body

def PlayerError.display (T : TextLayer Text) (R : Rendering Text) : PlayerError Text → String
  | control e => "control: " ++ e.display R
  | ws e => "websocket: " ++ e
  | json e => "json: " ++ T.showError e
  | stepFailed stepIndex message => "step " ++ toString stepIndex ++ ": " ++ message
  | closed => "ws connection closed unexpectedly"
  | expectedText got => "expected text frame, got " ++ got

/-! ## The shadow -/

/-- The write that a patch makes, if it has a path and a value. -/
def patchWrite (patch : Value) : Option (String × Value) := do
  let path ← (member patch "path").bind Value.asStr
  let value ← member patch "value"
  return (path, value)

def updateShadowFromFrame (frame : Value) (shadow : State) : State :=
  match (member frame "type").bind Value.asStr with
  | some "snapshot" => overwrite ∅ (((member frame "state").bind Value.asObject).getD [])
  | some "delta" =>
      overwrite shadow
        ((((member frame "patches").bind Value.asArray).getD []).filterMap patchWrite)
  | _ => shadow

/-! ## Steps -/

/-- `apply_to_map`, as the entries that are then visited in order. -/
def applyToMap (subs : Substitutions) (state : State) : List (String × Value) :=
  state.toList.map fun e => (e.1, subs.apply e.2)

namespace Player

variable (P : Platform Text) (R : Rendering Text) (d : Driver Text σ)

/-- A failed check of a step. -/
def check {α : Type} (idx : Nat) : Except String α → Effect σ (PlayerError Text) α
  | .ok a => pure a
  | .error message => throw (.stepFailed idx message)

/-- The loop over the expected entries of a state. -/
def compareState (kind : String) (actual : State) :
    List (String × Value) → Except String Unit
  | [] => .ok ()
  | (k, v) :: rest =>
      match actual[k]? with
      | none => .error (kind ++ ": missing path " ++ debugStr k)
      | some found =>
          if found ≠ v then
            .error (kind ++ ": path " ++ debugStr k ++ ": expected " ++ R.debug v ++ ", got " ++
              R.debug found)
          else compareState kind actual rest

def readTextFrame (idx timeout : Nat) : Effect σ (PlayerError Text) Value := do
  match ← Effect.total (d.nextWithin timeout) with
  | none => throw (.stepFailed idx ("server-sends: no frame within " ++ toString timeout ++ " ms"))
  | some none => throw .closed
  | some (some (.error e)) => throw (.ws e)
  | some (some (.ok (.text t))) =>
      match P.fromText t with
      | .ok v => return v
      | .error e => throw (.json e)
  | some (some (.ok other)) => throw (.expectedText (R.message other))

/-- Receive a frame and compare it, with what is appended to a mismatch. -/
def receiveFrame (idx : Nat) (mismatch : Value → String → String) (expected : Value)
    (shadow : State) : Effect σ (PlayerError Text) State := do
  let received ← readTextFrame P R d idx 5000
  let shadow := updateShadowFromFrame received shadow
  check idx ((structuralMatch R.display expected received).mapError (mismatch received))
  return shadow

/-- No data came before the time was over. -/
def noFrame (durationMs : Nat) : Option (SocketItem Text) → Except String Unit
  | none | some none => .ok ()
  | some (some (.ok (.close closeFrame))) =>
      let code := closeFrame.elim 1005 (·.code)
      if code = 1000 ∨ code = 1001 ∨ code = 1005 then .ok ()
      else .error ("expect-no-frame-for: abnormal close code " ++ toString code ++ " within " ++
        toString durationMs ++ " ms")
  | some (some _) =>
      .error ("expect-no-frame-for: a frame arrived within " ++ toString durationMs ++ " ms")

/-- The reason that an action expects. -/
def wantedReason (subs : Substitutions) (action : ClientAction) : String :=
  let reason := ((action.fields["reason"]?).bind Value.asStr).getD ""
  (subs.apply (.string reason)).asStr.getD reason

def closeWithReason (idx : Nat) (want : String) : Effect σ (PlayerError Text) Unit := do
  match ← Effect.total d.next with
  | some (.ok (.close (some frame))) =>
      check idx (if want ≠ "$ANY" ∧ ¬want.toList <:+: frame.reason.toList then
        .error ("expect-client-action close-with-reason: want " ++ debugStr want ++ ", got " ++
          debugStr frame.reason)
      else .ok ())
  | some (.ok other) =>
      throw (.stepFailed idx ("expect-client-action close-with-reason: got " ++ R.message other))
  | some (.error e) => throw (.ws e)
  | none => throw .closed

/-- The pairs of one patch of a `server-emits` step. -/
def emitPair (subs : Substitutions) (patch : Value) : Except String (String × Value) :=
  match (member patch "path").bind Value.asStr with
  | none => .error "server-emits patch missing `path`"
  | some path =>
      match member patch "value" with
      | none => .error "server-emits patch missing `value`"
      | some value => .ok (path, subs.apply value)

def emitPairs (subs : Substitutions) (frame : Value) : Except String (List (String × Value)) :=
  let frameType := ((member frame "type").bind Value.asStr).getD ""
  if frameType ≠ "delta" then
    .error ("server-emits only supports type=delta today, got " ++ debugStr frameType)
  else
    match (member frame "patches").bind Value.asArray with
    | none => .error "server-emits delta missing `patches` list"
    | some patches => patches.mapM (emitPair subs)

def runStep (subs : Substitutions) (idx : Nat) (step : Scenario.Step) (shadow : State) :
    Effect σ (PlayerError Text) State :=
  match step with
  | .clientSends frame => do
      (d.send (P.toText (subs.apply frame))).mapError .ws
      return shadow
  | .serverSends frame =>
      receiveFrame P R d idx (fun _ diff => "server-sends mismatch: " ++ diff) (subs.apply frame)
        shadow
  | .expectRuntimeState state => do
      check idx (compareState R "expect-runtime-state" shadow (applyToMap subs state))
      return shadow
  | .expectServerState state => do
      let resp ← (ControlClient.state P.toTextLayer d.http).mapError .control
      check idx (compareState R "expect-server-state" resp.state (applyToMap subs state))
      return shadow
  | .expectNoFrameFor durationMs => do
      let result ← Effect.total (d.nextWithin durationMs)
      check idx (noFrame durationMs result)
      return shadow
  | .expectClientAction action =>
      if action.action = "close-with-reason" then do
        closeWithReason R d idx (wantedReason subs action)
        return shadow
      else if action.action = "reconnect" then pure shadow
      else throw (.stepFailed idx ("expect-client-action: action " ++ debugStr action.action ++
        " not supported in server-target harness"))
  | .serverEmits frame => do
      let pairs ← check idx (emitPairs subs frame)
      (ControlClient.emit P.toTextLayer d.http pairs).mapError .control
      receiveFrame P R d idx (fun actual diff =>
        "server-emits mismatch: " ++ diff ++ " (got " ++ R.display actual ++ ")")
        (subs.apply frame) shadow
  | .unsupported kind =>
      throw (.stepFailed idx ("step kind " ++ debugStr kind ++
        " not supported by server-target harness"))

/-- The steps from number `idx` on. -/
def runSteps (subs : Substitutions) : Nat → List Scenario.Step → State →
    Effect σ (PlayerError Text) State
  | _, [], shadow => pure shadow
  | idx, step :: steps, shadow => do
      let shadow ← runStep P R d subs idx step shadow
      runSteps subs (idx + 1) steps shadow

def openWs (url : String) : Effect σ (PlayerError Text) Unit :=
  if d.urlParses url then (d.connect url).mapError .ws else throw .closed

def runScenario (scenario : Scenario) (tokens : Std.ExtTreeMap String String) :
    Effect σ (PlayerError Text) Unit := do
  let subs := Substitutions.new tokens (scenario.bundleHashes P)
  let setup ← (ControlClient.setup P.toTextLayer d.http (scenario.setupRequest P tokens)).mapError
    .control
  openWs d setup.wsUrl
  let play : Effect σ (PlayerError Text) Unit := do
    let _ ← runSteps P R d subs 0 scenario.steps ∅
    (ControlClient.reset P.toTextLayer d.http).mapError .control
  play.finally_ d.dropSocket

end Player
end Lumencast.Conformance
