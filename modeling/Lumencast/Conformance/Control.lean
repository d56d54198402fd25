import Lumencast.Foundation.Effect
import Lumencast.Server.ControlHttp

/-!
# The control client

The harness drives a server through the endpoints of its control plane. A call
writes a request, and reads the response if its status is a success. Between the
two the texts cross a network, which is a parameter.

Over the control plane of this repository a call has the effect and the result of
the handler, `exec_call`: nothing is lost in the two encodings, except that an
inline body that is `null` arrives as a missing one.
-/

namespace Lumencast.Conformance

open Foundation Protocol
open Server (HttpMethod HttpRequest HttpResponse Framework ControlResponse ControlEvent TestControl
  SceneRef SceneCall Endpoint routes lookup_route)

variable {Text σ : Type}

/-! ## Bodies -/

/-- The bundles of a request have the same fields on both sides. -/
abbrev SetupBundle := Server.SetupBundle

structure SetupRequest where
  scenario : String
  tokens : Std.ExtTreeMap String String
  bundles : List SetupBundle
  initialState : State

def stringsToValue (strings : Std.ExtTreeMap String String) : Value :=
  .object (strings.toList.map fun e => (e.1, .string e.2))

def bundleToValue (bundle : SetupBundle) : Value :=
  objectOf ([("id", .string bundle.id), ("hash", .string bundle.hash)] ++
    optionalField "inline" id bundle.inlined)

/-- An empty initial state is not written. -/
def SetupRequest.toValue (req : SetupRequest) : Value :=
  objectOf ([("scenario", .string req.scenario), ("tokens", stringsToValue req.tokens),
      ("bundles", .array (req.bundles.map bundleToValue))] ++
    optionalField "initial_state" State.toValue
      (if req.initialState.isEmpty then none else some req.initialState))

def emitPatchToValue (pair : String × Value) : Value :=
  objectOf [("path", .string pair.1), ("value", pair.2)]

def emitToValue (pairs : List (String × Value)) : Value :=
  objectOf [("patches", .array (pairs.map emitPatchToValue))]

structure SetupResponse where
  wsUrl : String
  sceneId : String
  sceneVersion : String
  deriving DecidableEq

structure StateResponse where
  sceneId : String
  sceneVersion : String
  state : State
  deriving DecidableEq

structure HealthResponse where
  status : String
  controlPlaneVersion : Nat
  server : Option String
  deriving DecidableEq

def SetupResponse.ofValue (v : Value) : Except JsonError SetupResponse := do
  let fields ← Decode.record ["ws_url", "scene_id", "scene_version"] v
  let wsUrl ← Decode.required fields "ws_url" Decode.string
  let sceneId ← Decode.required fields "scene_id" Decode.string
  let sceneVersion ← Decode.required fields "scene_version" Decode.string
  return { wsUrl, sceneId, sceneVersion }

def StateResponse.ofValue (v : Value) : Except JsonError StateResponse := do
  let fields ← Decode.record ["scene_id", "scene_version", "state"] v
  let sceneId ← Decode.required fields "scene_id" Decode.string
  let sceneVersion ← Decode.required fields "scene_version" Decode.string
  let state ← Decode.required fields "state" State.ofValue
  return { sceneId, sceneVersion, state }

def HealthResponse.ofValue (v : Value) : Except JsonError HealthResponse := do
  let fields ← Decode.record ["status", "control_plane_version", "server"] v
  let status ← Decode.required fields "status" Decode.string
  let controlPlaneVersion ← Decode.required fields "control_plane_version" Decode.u32
  let server ← Decode.optional fields "server" Decode.string
  return { status, controlPlaneVersion, server }

/-! ## Calls -/

inductive HttpError where
  | transport (message : String)
  /-- The body of a response is missing, or it cannot be read. -/
  | decode (e : Option JsonError)
  deriving DecidableEq, Repr

inductive ControlError (Text : Type) where
  | http (e : HttpError)
  | status (status : Nat) (body : Option Text)
  deriving DecidableEq

/-- The network between the client and the control plane. -/
abbrev Transport (Text σ : Type) := HttpRequest Text → Effect σ HttpError (HttpResponse Text)

def isSuccess (status : Nat) : Bool := 200 ≤ status && status < 300

namespace ControlClient

variable (T : TextLayer Text) (http : Transport Text σ)

/-- Send a request; a response that is not a success is an error. -/
def send (method : HttpMethod) (path : String) (body : Option Value) :
    Effect σ (ControlError Text) (HttpResponse Text) := do
  let resp ← (http { method, path, body := body.map T.toText }).mapError .http
  if isSuccess resp.status then return resp else throw (.status resp.status resp.body)

/-- Read the body of a response. -/
def json {α : Type} (ofValue : Value → Except JsonError α) (resp : HttpResponse Text) :
    Effect σ (ControlError Text) α :=
  match Server.readBody T ofValue resp.body with
  | .ok a => pure a
  | .error e => throw (.http (.decode e))

def setup (body : SetupRequest) : Effect σ (ControlError Text) SetupResponse := do
  let resp ← send T http .post "/test/setup" (some body.toValue)
  json T SetupResponse.ofValue resp

def reset : Effect σ (ControlError Text) Unit := do
  let _ ← send T http .post "/test/reset" none
  return ()

def state : Effect σ (ControlError Text) StateResponse := do
  let resp ← send T http .get "/test/state" none
  json T StateResponse.ofValue resp

def emit (patches : List (String × Value)) : Effect σ (ControlError Text) Unit := do
  let _ ← send T http .post "/test/emit" (some (emitToValue patches))
  return ()

def health : Effect σ (ControlError Text) HealthResponse := do
  let resp ← send T http .get "/test/health" none
  json T HealthResponse.ofValue resp

end ControlClient

/-! ## What arrives -/

/-- An inline body that is `null` is read as a missing one. -/
def received (bundle : SetupBundle) : SetupBundle :=
  { bundle with inlined := bundle.inlined.filter (· ≠ .null) }

def SetupRequest.received (req : SetupRequest) : Server.SetupRequest where
  scenario := some req.scenario
  tokens := req.tokens
  bundles := req.bundles.map Conformance.received
  initialState := req.initialState

theorem strings_inverts (strings : Std.ExtTreeMap String String) :
    Server.stringsOfValue (stringsToValue strings) = .ok strings := by
  have entries : (strings.toList.map fun e => (e.1, Value.string e.2)).mapM (fun f =>
      (Decode.string f.2).map (Prod.mk f.1)) = .ok strings.toList := by
    rw [mapM_eq_ok, List.forall₂_map_left_iff, List.forall₂_same]
    exact fun _ _ => rfl
  rw [stringsToValue, Server.stringsOfValue, entries]
  exact congrArg Except.ok (overwrite_toList strings)

theorem bundle_received (bundle : SetupBundle) :
    Server.SetupBundle.ofValue (bundleToValue bundle) = .ok (received bundle) := by
  let fields := [("id", .string bundle.id), ("hash", .string bundle.hash)] ++
    optionalField "inline" id bundle.inlined
  obtain ⟨content, written, read⟩ := exists_objectOf fields
  have id : Decode.required (content.lookup ·) "id" Decode.string = .ok bundle.id :=
    Decode.required_string (by simp [read, fields])
  have hash : Decode.required (content.lookup ·) "hash" Decode.string = .ok bundle.hash :=
    Decode.required_string (by simp [read, fields])
  have inlined : Decode.optional (content.lookup ·) "inline" Decode.value =
      .ok (bundle.inlined.filter (· ≠ .null)) := by
    have found : content.lookup "inline" = bundle.inlined := by simp [read, fields]
    rw [Decode.optional, Decode.defaulted, found]
    cases bundle.inlined with
    | none => rfl
    | some v => cases v <;> rfl
  rw [bundleToValue, written, Server.SetupBundle.ofValue]
  simp [Decode.record, bind, Except.bind, id, hash, inlined, pure, Except.pure, received]

theorem orNull_of_eq {α : Type} {decode : Value → Except JsonError α} {v : Value} {a : α}
    (default : α) (present : v ≠ .null) (decoded : decode v = .ok a) :
    Server.orNull decode default v = .ok a := by
  rw [Server.orNull, Decode.option_of_ne_null present, decoded]
  rfl

theorem setup_received (req : SetupRequest) :
    Server.SetupRequest.ofValue req.toValue = .ok req.received := by
  let fields := [("scenario", .string req.scenario), ("tokens", stringsToValue req.tokens),
      ("bundles", .array (req.bundles.map bundleToValue))] ++
    optionalField "initial_state" State.toValue
      (if req.initialState.isEmpty then none else some req.initialState)
  obtain ⟨content, written, read⟩ := exists_objectOf fields
  have scenario : Decode.optional (content.lookup ·) "scenario" Decode.string =
      .ok (some req.scenario) :=
    Decode.optional_string (by simp [read, fields])
  have tokens : Decode.defaulted (content.lookup ·) "tokens"
      (Server.orNull Server.stringsOfValue ∅) ∅ = .ok req.tokens := by
    have found : content.lookup "tokens" = some (stringsToValue req.tokens) := by
      simp [read, fields]
    rw [Decode.defaulted, found]
    refine orNull_of_eq ∅ ?_ (strings_inverts req.tokens)
    intro null
    cases null
  have bundles : Decode.defaulted (content.lookup ·) "bundles"
      (Server.orNull (Decode.list Server.SetupBundle.ofValue) []) [] =
        .ok (req.bundles.map received) := by
    have found : content.lookup "bundles" = some (.array (req.bundles.map bundleToValue)) := by
      simp [read, fields]
    rw [Decode.defaulted, found]
    refine orNull_of_eq [] (by intro null; cases null) ?_
    change (req.bundles.map bundleToValue).mapM Server.SetupBundle.ofValue = _
    rw [mapM_eq_ok, List.forall₂_map_left_iff, List.forall₂_map_right_iff, List.forall₂_same]
    exact fun bundle _ => bundle_received bundle
  have initialState : Decode.defaulted (content.lookup ·) "initial_state"
      (Server.orNull State.ofValue ∅) ∅ = .ok req.initialState := by
    have found : content.lookup "initial_state" =
        (if req.initialState.isEmpty then none else some req.initialState).map State.toValue := by
      simp [read, fields]
    by_cases empty : req.initialState.isEmpty
    · rw [Decode.defaulted, found, if_pos empty, Std.ExtTreeMap.isEmpty_iff.mp empty]
      rfl
    · rw [Decode.defaulted, found, if_neg empty]
      refine orNull_of_eq ∅ ?_ (State.inverts req.initialState)
      intro null
      cases null
  rw [SetupRequest.toValue, written, Server.SetupRequest.ofValue]
  simp [Decode.record, bind, Except.bind, scenario, tokens, bundles, initialState, pure,
    Except.pure, SetupRequest.received]

theorem emit_inverts (pairs : List (String × Value)) :
    Decode.Inverts Server.emitRequestOfValue emitToValue pairs := by
  have patch : ∀ pair ∈ pairs, Decode.Inverts Server.emitPatchOfValue emitPatchToValue pair := by
    rintro ⟨path, value⟩ _
    obtain ⟨content, written, read⟩ :=
      exists_objectOf [("path", .string path), ("value", value)]
    have path : Decode.required (content.lookup ·) "path" Decode.string = .ok path :=
      Decode.required_string (by simp [read])
    have value : Decode.required (content.lookup ·) "value" Decode.value = .ok value :=
      Decode.required_of_eq (Decode.value_inverts value) (by simp [read])
    rw [Decode.Inverts, emitPatchToValue, written, Server.emitPatchOfValue]
    simp [Decode.record, bind, Except.bind, path, value, pure, Except.pure]
  obtain ⟨content, written, read⟩ :=
    exists_objectOf [("patches", .array (pairs.map emitPatchToValue))]
  have patches : Decode.required (content.lookup ·) "patches"
      (Decode.list Server.emitPatchOfValue) = .ok pairs :=
    Decode.required_of_eq (Decode.list_inverts patch) (by simp [read])
  rw [Decode.Inverts, emitToValue, written, Server.emitRequestOfValue]
  simp [Decode.record, bind, Except.bind, patches]

/-! ## Over the control plane -/

/-- A network that ends at the control plane of this repository. -/
def inProcess (P : Platform Text) (F : Framework Text) : Transport Text (TestControl Text) :=
  fun req => Effect.mk fun tc => (.ok (tc.serveHttp P F req).2, (tc.serveHttp P F req).1)

inductive ControlCall where
  | setup (body : SetupRequest)
  | reset
  | state
  | emit (patches : List (String × Value))
  | health

inductive Answer where
  | setup (response : SetupResponse)
  | state (response : StateResponse)
  | done
  | health (response : HealthResponse)
  deriving DecidableEq

def ControlClient.call (T : TextLayer Text) (http : Transport Text σ) :
    ControlCall → Effect σ (ControlError Text) Answer
  | .setup body => do return .setup (← setup T http body)
  | .reset => do reset T http; return .done
  | .state => do return .state (← state T http)
  | .emit patches => do emit T http patches; return .done
  | .health => do return .health (← health T http)

/-- The event that a call is for the control plane. -/
def ControlCall.event : ControlCall → ControlEvent SceneRef Text
  | .setup body => .setup body.received
  | .reset => .reset
  | .state => .state
  | .emit patches => .emit patches
  | .health => .health

/-- What a call puts into the body of its request. -/
def ControlCall.content : ControlCall → Option Value
  | .setup body => some body.toValue
  | .emit patches => some (emitToValue patches)
  | .reset | .state | .health => none

/-- What a response of the control plane is for the client. -/
def answer (T : TextLayer Text) : ControlResponse → Except (ControlError Text) Answer
  | .setup wsUrl sceneId sceneVersion => .ok (.setup { wsUrl, sceneId, sceneVersion })
  | .state sceneId sceneVersion state => .ok (.state { sceneId, sceneVersion, state })
  | .noContent => .ok .done
  | .health => .ok (.health
      { status := "ok", controlPlaneVersion := Server.controlPlaneVersion
        server := some Server.serverId })
  | .problem status code detail => .error
      (.status status ((ControlResponse.problem status code detail).toHttp T).body)
  | .emitError code message => .error
      (.status 400 ((ControlResponse.emitError code message).toHttp T).body)

variable {P : Platform Text} {F : Framework Text} {tc : TestControl Text}

section

variable {method : HttpMethod} {path : String} {body : Option Value} {tc' : TestControl Text}
  {response : ControlResponse}

theorem exec_inProcess {req : HttpRequest Text}
    (handled : tc.serveHttp P F req = (tc', response.toHttp P.toTextLayer)) :
    Effect.exec ((inProcess P F req).mapError .http : Effect _ (ControlError Text) _) tc =
      (.ok (response.toHttp P.toTextLayer), tc') := by
  rw [Effect.exec_mapError_eq_ok, inProcess, Effect.exec_mk, handled]

theorem send_ok (handled : tc.serveHttp P F ⟨method, path, body.map P.toText⟩ =
      (tc', response.toHttp P.toTextLayer)) (success : isSuccess response.status = true) :
    Effect.exec (ControlClient.send P.toTextLayer (inProcess P F) method path body) tc =
      (.ok (response.toHttp P.toTextLayer), tc') := by
  have accepted : isSuccess (response.toHttp P.toTextLayer).status = true := success
  rw [ControlClient.send, Effect.exec_bind_of_ok (exec_inProcess handled), if_pos accepted,
    Effect.exec_pure]

theorem send_problem (handled : tc.serveHttp P F ⟨method, path, body.map P.toText⟩ =
      (tc', response.toHttp P.toTextLayer)) (failure : isSuccess response.status = false) :
    Effect.exec (ControlClient.send P.toTextLayer (inProcess P F) method path body) tc =
      (.error (.status response.status (response.toHttp P.toTextLayer).body), tc') := by
  have refused : ¬isSuccess (response.toHttp P.toTextLayer).status = true :=
    Bool.not_eq_true _ ▸ failure
  rw [ControlClient.send, Effect.exec_bind_of_ok (exec_inProcess handled), if_neg refused,
    Effect.exec_throw]
  rfl

theorem readBody_toText {v : Value} (back : P.ReadsBack v) {α : Type}
    {ofValue : Value → Except JsonError α} {a : α} (read : ofValue v = .ok a) :
    Server.readBody P.toTextLayer ofValue (some (P.toText v)) = .ok a := by
  rw [Server.readBody, back]
  exact congrArg (Except.mapError some) read

/-- A response that is a success is read by the decoder of its content. -/
theorem send_json {v : Value} (back : P.ReadsBack v) {α : Type}
    {ofValue : Value → Except JsonError α} {a : α}
    (handled : tc.serveHttp P F ⟨method, path, body.map P.toText⟩ =
      (tc', response.toHttp P.toTextLayer)) (success : isSuccess response.status = true)
    (content : response.content = some v) (read : ofValue v = .ok a) :
    Effect.exec (ControlClient.send P.toTextLayer (inProcess P F) method path body >>=
      ControlClient.json P.toTextLayer ofValue) tc = (.ok a, tc') := by
  rw [Effect.exec_bind_of_ok (send_ok handled success), ControlClient.json, ControlResponse.toHttp,
    content, Option.map_some, readBody_toText back read, Effect.exec_pure]

end

theorem refusal_problem {bundle : Server.SetupBundle} {response : ControlResponse}
    (refused : bundle.refusal = some response) :
    ∃ code detail, response = .problem 400 code detail := by
  unfold Server.SetupBundle.refusal at refused
  split at refused
  · exact ⟨_, _, (Option.some.inj refused).symm⟩
  · split at refused
    · exact ⟨_, _, (Option.some.inj refused).symm⟩
    · cases refused

/-- The responses of `handle_setup`. -/
theorem handleSetup_response (P : Platform Text) (tc : TestControl Text)
    (req : Server.SetupRequest) :
    (∃ wsUrl id version, (tc.handleSetup P req).2 = .setup wsUrl id version) ∨
      ∃ code detail, (tc.handleSetup P req).2 = .problem 400 code detail := by
  rcases TestControl.handleSetup_cases P tc req with
    ⟨_, _, _, _, _, response⟩ | ⟨_, ⟨_, response⟩ | ⟨bundle, _, _, refused⟩⟩
  · exact .inl ⟨_, _, _, response⟩
  · exact .inr ⟨_, _, response⟩
  · exact .inr (refusal_problem refused)

theorem lookUpActive_error {detail : String} {response : ControlResponse}
    (failed : tc.lookUpActive detail = .error response) :
    ∃ code detail, response = .problem 409 code detail := by
  unfold TestControl.lookUpActive at failed
  split at failed
  · cases failed
    exact ⟨_, _, rfl⟩
  · split at failed
    · cases failed
      exact ⟨_, _, rfl⟩
    · cases failed

/-- The responses of `handle_emit`. -/
theorem handleEmit_response (P : Platform Text) (tc : TestControl Text)
    (pairs : List (String × Value)) :
    (tc.handleEmit P pairs).2 = .noContent ∨
      (∃ code detail, (tc.handleEmit P pairs).2 = .problem 409 code detail) ∨
      ∃ code message, (tc.handleEmit P pairs).2 = .emitError code message := by
  unfold TestControl.handleEmit
  cases found : tc.lookUpActive "no scene is currently active" with
  | error response =>
      obtain ⟨code, detail, rfl⟩ := lookUpActive_error found
      exact .inr (.inl ⟨code, detail, rfl⟩)
  | ok r =>
      dsimp only
      split
      · exact .inl rfl
      · split
        · exact .inr (.inr ⟨_, _, rfl⟩)
        · exact .inl rfl

theorem setupResponse_read (wsUrl id version : String) :
    SetupResponse.ofValue (objectOf [("ws_url", .string wsUrl), ("scene_id", .string id),
      ("scene_version", .string version)]) = .ok ⟨wsUrl, id, version⟩ := by
  obtain ⟨content, written, read⟩ := exists_objectOf [("ws_url", .string wsUrl),
    ("scene_id", .string id), ("scene_version", .string version)]
  have wsUrl : Decode.required (content.lookup ·) "ws_url" Decode.string = .ok wsUrl :=
    Decode.required_string (by simp [read])
  have id : Decode.required (content.lookup ·) "scene_id" Decode.string = .ok id :=
    Decode.required_string (by simp [read])
  have version : Decode.required (content.lookup ·) "scene_version" Decode.string = .ok version :=
    Decode.required_string (by simp [read])
  rw [written, SetupResponse.ofValue]
  simp [Decode.record, bind, Except.bind, wsUrl, id, version, pure, Except.pure]

theorem stateResponse_read (id version : String) (state : State) :
    StateResponse.ofValue (objectOf [("scene_id", .string id), ("scene_version", .string version),
      ("state", State.toValue state)]) = .ok ⟨id, version, state⟩ := by
  obtain ⟨content, written, read⟩ := exists_objectOf [("scene_id", .string id),
    ("scene_version", .string version), ("state", State.toValue state)]
  have id : Decode.required (content.lookup ·) "scene_id" Decode.string = .ok id :=
    Decode.required_string (by simp [read])
  have version : Decode.required (content.lookup ·) "scene_version" Decode.string = .ok version :=
    Decode.required_string (by simp [read])
  have state : Decode.required (content.lookup ·) "state" State.ofValue = .ok state :=
    Decode.required_of_eq (State.inverts state) (by simp [read])
  rw [written, StateResponse.ofValue]
  simp [Decode.record, bind, Except.bind, id, version, state, pure, Except.pure]

section

variable {body : SetupRequest}

theorem serveHttp_setup (F : Framework Text) (tc : TestControl Text)
    (back : P.ReadsBack body.toValue) :
    tc.serveHttp P F ⟨.post, "/test/setup", (some body.toValue).map P.toText⟩ =
      ((tc.handleSetup P body.received).1,
        (tc.handleSetup P body.received).2.toHttp P.toTextLayer) := by
  simp only [TestControl.serveHttp, show routes.lookup (.post, "/test/setup") = some .setup
    from lookup_route .setup, Option.map_some, readBody_toText back (setup_received body)]

theorem exec_setup_ok (asked : P.ReadsBack body.toValue) {wsUrl id version : String}
    (response : (tc.handleSetup P body.received).2 = .setup wsUrl id version)
    (told : ∀ v ∈ (ControlResponse.setup wsUrl id version).content, P.ReadsBack v) :
    Effect.exec (ControlClient.setup P.toTextLayer (inProcess P F) body) tc =
      (.ok ⟨wsUrl, id, version⟩, (tc.handleSetup P body.received).1) := by
  have handled := serveHttp_setup F tc asked
  rw [response] at handled
  exact send_json (told _ rfl) handled rfl rfl (setupResponse_read wsUrl id version)

theorem exec_setup_problem (asked : P.ReadsBack body.toValue) {code detail : String}
    (response : (tc.handleSetup P body.received).2 = .problem 400 code detail) :
    Effect.exec (ControlClient.setup P.toTextLayer (inProcess P F) body) tc =
      (.error (.status 400 ((ControlResponse.problem 400 code detail).toHttp P.toTextLayer).body),
        (tc.handleSetup P body.received).1) := by
  have handled := serveHttp_setup F tc asked
  rw [response] at handled
  exact Effect.exec_bind_of_error (send_problem handled rfl)

end

/-- A call has the effect of its event, and the result is the answer to the response. -/
theorem exec_call (F : Framework Text) (tc : TestControl Text) {c : ControlCall}
    (asked : ∀ v ∈ c.content, P.ReadsBack v)
    (told : ∀ response ∈ (tc.serve P c.event).2, ∀ v ∈ response.content, P.ReadsBack v) :
    ∃ response, (tc.serve P c.event).2 = some response ∧
      Effect.exec (ControlClient.call P.toTextLayer (inProcess P F) c) tc =
        (answer P.toTextLayer response, (tc.serve P c.event).1) := by
  cases c with
  | setup body =>
      refine ⟨_, rfl, ?_⟩
      rcases handleSetup_response P tc body.received with
        ⟨wsUrl, id, version, response⟩ | ⟨code, detail, response⟩
      · have told := told _ rfl
        rw [response] at told ⊢
        exact Effect.exec_bind_of_ok (exec_setup_ok (asked _ rfl) response told)
      · rw [response]
        exact Effect.exec_bind_of_error (exec_setup_problem (asked _ rfl) response)
  | reset =>
      have handled : tc.serveHttp P F ⟨.post, "/test/reset", (none : Option Value).map P.toText⟩ =
          (tc.handleReset.1, tc.handleReset.2.toHttp P.toTextLayer) := by
        simp only [TestControl.serveHttp, show routes.lookup (.post, "/test/reset") = some .reset
          from lookup_route .reset]
      refine ⟨_, rfl, ?_⟩
      exact Effect.exec_bind_of_ok (Effect.exec_bind_of_ok (send_ok handled rfl))
  | state =>
      have handled : tc.serveHttp P F ⟨.get, "/test/state", (none : Option Value).map P.toText⟩ =
          (tc, tc.handleState.toHttp P.toTextLayer) := by
        simp only [TestControl.serveHttp, show routes.lookup (.get, "/test/state") = some .state
          from lookup_route .state]
      have told := told _ rfl
      refine ⟨_, rfl, ?_⟩
      unfold TestControl.handleState at handled told ⊢
      cases found : tc.lookUpActive "no scene is currently active; call /test/setup first" with
      | error response =>
          obtain ⟨code, detail, rfl⟩ := lookUpActive_error found
          rw [found] at handled
          exact Effect.exec_bind_of_error (Effect.exec_bind_of_error (send_problem handled rfl))
      | ok r =>
          rw [found] at handled told
          exact Effect.exec_bind_of_ok
            (send_json (told _ rfl) handled rfl rfl (stateResponse_read _ _ _))
  | emit patches =>
      have handled : tc.serveHttp P F ⟨.post, "/test/emit", (some (emitToValue patches)).map
          P.toText⟩ = ((tc.handleEmit P patches).1,
            (tc.handleEmit P patches).2.toHttp P.toTextLayer) := by
        simp only [TestControl.serveHttp, show routes.lookup (.post, "/test/emit") = some .emit
          from lookup_route .emit, Option.map_some,
          readBody_toText (asked _ rfl) (emit_inverts patches)]
      refine ⟨_, rfl, ?_⟩
      rcases handleEmit_response P tc patches with
        response | ⟨code, detail, response⟩ | ⟨code, message, response⟩
      · rw [response] at handled ⊢
        exact Effect.exec_bind_of_ok (Effect.exec_bind_of_ok (send_ok handled rfl))
      · rw [response] at handled ⊢
        exact Effect.exec_bind_of_error (Effect.exec_bind_of_error (send_problem handled rfl))
      · rw [response] at handled ⊢
        exact Effect.exec_bind_of_error (Effect.exec_bind_of_error (send_problem handled rfl))
  | health =>
      have handled : tc.serveHttp P F ⟨.get, "/test/health", (none : Option Value).map P.toText⟩ =
          (tc, ControlResponse.health.toHttp P.toTextLayer) := by
        simp only [TestControl.serveHttp, show routes.lookup (.get, "/test/health") = some .health
          from lookup_route .health]
      refine ⟨_, rfl, ?_⟩
      exact Effect.exec_bind_of_ok (send_json (told _ rfl _ rfl) handled rfl rfl (by decide))

/-! ## The stage behind the client -/

/-- A call of the client, or a call on a scene that somebody holds a handle to. -/
inductive ClientEvent (Text : Type) where
  | call (c : ControlCall)
  | scene (r : SceneRef) (change : SceneCall Text)

def ClientEvent.event : ClientEvent Text → ControlEvent SceneRef Text
  | call c => c.event
  | scene r change => .scene r change

/-- The control plane after a sequence of events, and what the calls returned. -/
def callAll (P : Platform Text) (F : Framework Text) (tc : TestControl Text) :
    List (ClientEvent Text) → TestControl Text × List (Except (ControlError Text) Answer)
  | [] => (tc, [])
  | .call c :: events =>
      let called := Effect.exec (ControlClient.call P.toTextLayer (inProcess P F) c) tc
      let rest := callAll P F called.2 events
      (rest.1, called.1 :: rest.2)
  | .scene r change :: events =>
      callAll P F
        { tc with server := tc.server.modifyScene r fun s => s.call P.toTextLayer change } events

theorem callAll_eq {events : List (ClientEvent Text)}
    (asked : ∀ c, .call c ∈ events → ∀ v ∈ c.content, P.ReadsBack v)
    (told : ∀ response ∈ (tc.serveAll P (events.map ClientEvent.event)).2,
      ∀ v ∈ response.content, P.ReadsBack v) :
    callAll P F tc events =
      ((tc.serveAll P (events.map ClientEvent.event)).1,
        (tc.serveAll P (events.map ClientEvent.event)).2.map (answer P.toTextLayer)) := by
  induction events generalizing tc with
  | nil => rfl
  | cons e events ih =>
      have later : ∀ c, .call c ∈ events → ∀ v ∈ c.content, P.ReadsBack v :=
        fun c member => asked c (List.mem_cons_of_mem e member)
      have rest := ih later fun response member => told response (List.mem_append_right _ member)
      cases e with
      | call c =>
          obtain ⟨response, served, called⟩ := exec_call F tc (asked c List.mem_cons_self)
            fun response member => told response
              (List.mem_append_left _ (Option.mem_toList.mpr member))
          simp only [ClientEvent.event] at rest
          simp only [callAll, called, rest, List.map_cons, ClientEvent.event,
            TestControl.serveAll, served, Option.toList_some, List.singleton_append]
      | scene r change =>
          simp only [ClientEvent.event, TestControl.serve] at rest
          simp only [callAll, rest, List.map_cons, ClientEvent.event, TestControl.serveAll,
            TestControl.serve, Option.toList_none, List.nil_append]

/-- Whatever a harness asks of a new server, in any order and whatever happens to the scenes
in between, its calls return the answers of the stage, if the bodies of the requests and of
these answers are read back. -/
theorem client_sees_stage {P : Platform Text} (F : Framework Text)
    (server : Server.ServerInner Text) (unregistered : server.scenes = ∅)
    (inactive : server.active = none) (wsUrl : String) (events : List (ClientEvent Text)) :
    let tc : TestControl Text := ⟨server, ∅, wsUrl⟩
    let staged := (Server.Stage.serveAll P wsUrl none
      (tc.observeAll P (events.map ClientEvent.event))).2
    (∀ c, .call c ∈ events → ∀ v ∈ c.content, P.ReadsBack v) →
      (∀ response ∈ staged, ∀ v ∈ response.content, P.ReadsBack v) →
      (callAll P F tc events).2 = staged.map (answer P.toTextLayer) := by
  intro tc staged asked told
  have start : tc.Sound := TestControl.sound_of_unregistered unregistered inactive ∅ wsUrl
  have blank : tc.stage = none := by
    simp [tc, TestControl.stage, Server.ServerInner.activeScene, inactive]
  obtain ⟨_, _, refines⟩ := TestControl.serveAll_refines (P := P) start
    (events.map ClientEvent.event)
  have same : (tc.serveAll P (events.map ClientEvent.event)).2 = staged := by
    rw [blank] at refines
    exact congrArg Prod.snd refines
  rw [callAll_eq asked (same ▸ told), same]

/-- A lamp is set up, switched on and read. -/
theorem client_sees_stage_lamp :
    let setup : SetupRequest :=
      { scenario := "lamp", tokens := ∅, bundles := [⟨"lamps", "sha256:00", some .null⟩]
        initialState := (∅ : State).insert "lamp" (.bool false) }
    let plain : Framework Value := ⟨fun _ => ⟨404, none⟩, fun _ => ⟨422, none⟩⟩
    (callAll valuePlatform plain ⟨Server.twoScenes.inner.clearScenes, ∅, "ws://lamp"⟩
      [.call .state, .call (.setup setup), .call (.emit [("lamp", .bool true)]),
        .call .state]).2.drop 1 =
      [.ok (.setup ⟨"ws://lamp", "lamps", "sha256:00"⟩), .ok .done,
        .ok (.state ⟨"lamps", "sha256:00", (∅ : State).insert "lamp" (.bool true)⟩)] := by
  intro setup plain
  rw [client_sees_stage (P := valuePlatform) plain _ rfl rfl _ _ (fun _ _ _ _ => rfl)
    fun _ _ _ _ => rfl]
  decide

end Lumencast.Conformance
