import Lumencast.Server.ActiveScene
import Lumencast.Server.Authenticator
import Lumencast.Server.NoLoss
import Lumencast.Server.SceneOp

/-!
# The test control plane

The endpoints with which a harness drives a server: `setup` replaces everything
by one scene and one set of tokens, `emit` writes to the active scene, `state`
reads it and `reset` drops everything. Requests are handled one at a time.
Between two of them anybody who holds a handle to a scene, also to one of an
earlier setup, may go on operating on it.

`Stage` is what the control plane is for: at most one scene, chosen by the last
setup alone. `serve_refines` relates the two step by step.
-/

namespace Lumencast.Server

open Foundation Protocol

variable {Text : Type}

/-! ## Requests and responses -/

structure SetupBundle where
  id : String
  hash : String
  inlined : Option Value := none
  deriving DecidableEq

structure SetupRequest where
  scenario : Option String := none
  tokens : Std.ExtTreeMap String String := ∅
  bundles : List SetupBundle := []
  initialState : State := ∅

inductive ControlResponse where
  | setup (wsUrl : String) (sceneId : SceneId) (sceneVersion : SceneVersion)
  | state (sceneId : SceneId) (sceneVersion : SceneVersion) (state : State)
  | noContent
  | health
  | problem (status : Nat) (code detail : String)
  | emitError (code message : String)
  deriving DecidableEq

/-! ## The server handle, uninterrupted -/

namespace ServerInner

variable (inner : ServerInner Text)

def clearScenes : ServerInner Text := { inner with scenes := ∅, active := none }

def newSceneWithVersion (id : SceneId) (version : SceneVersion) :
    Except ServerError (ServerInner Text × SceneRef) :=
  if (inner.scene id).isSome then .error (.duplicateScene id)
  else .ok ((inner.insert id (Scene.new id version)).activate id, inner.nextRef)

def setActiveScene (id : SceneId) : Except ServerError (ServerInner Text) :=
  if (inner.scene id).isSome then
    .ok { inner with active := some id, events := inner.events.send (.sceneSwap id) }
  else .error (.unknownScene id)

/-- The three are the calls of the registry, taken without interruption. -/
theorem finish_calls (P : Platform Text) :
    ServerCall.finish P inner 2 .clearScenes = (inner.clearScenes, .ok none) ∧
      (∀ id version, ServerCall.finish P inner 3 (.register (.plain id version)) =
        match inner.newSceneWithVersion id version with
        | .error e => (inner, .error e)
        | .ok (inner', r) => (inner', .ok (some r))) ∧
      ∀ id, ServerCall.finish P inner 3 (.setActiveScene id) =
        match inner.setActiveScene id with
        | .error e => (inner, .error e)
        | .ok inner' => (inner', .ok none) := by
  refine ⟨rfl, fun id version => ?_, fun id => ?_⟩
  · rw [ServerCall.finish_register, newSceneWithVersion, Registration.id]
    split <;> rfl
  · rw [setActiveScene]
    by_cases known : (inner.scene id).isSome
    · simp [ServerCall.finish, ServerCall.step, known]
    · simp [ServerCall.finish, ServerCall.step, known]

end ServerInner

/-! ## Handlers -/

namespace SetupBundle

variable (bundle : SetupBundle)

/-- A field of the inline body, if the body is an object. -/
def field (name : String) : Option Value :=
  (bundle.inlined.bind Value.asObject).bind fun fields => fields.lookup name

/-- The scene identifier of the inline body overrides that of the wrapper. -/
def effectiveId : SceneId := ((bundle.field "scene_id").bind Value.asStr).getD bundle.id

/-- The early returns of a setup. -/
def refusal : Option ControlResponse :=
  if bundle.id.isEmpty then some (.problem 400 "invalid-bundle" "bundle id is empty")
  else if (stripPrefix "sha256:".toList bundle.hash.toList).isNone then
    some (.problem 400 "invalid-hash" "bundle.hash must be sha256-prefixed")
  else none

/-- The vendor-primitive check: a malformed capture node marks the scene unservable. -/
def checkLayout (P : Platform Text) (scene : Scene Text) : Scene Text :=
  match (bundle.field "layout").map checkZabCaptureNodes with
  | some (.error e) => scene.reject .invalidValue (e.display P.showError)
  | _ => scene

end SetupBundle

/-- One entry of `operator_inputs`; malformed entries are skipped. -/
def extractInputSpec? (entry : Value) : Option InputSpec := do
  let obj ← entry.asObject
  let path ← (obj.lookup "path").bind Value.asStr
  let constraints := ((obj.lookup "constraints").bind Value.asObject).getD []
  return {
    path := ⟨path⟩
    kind := ((obj.lookup "type").bind Value.asStr).bind fun name => InputType.wireNames.lookup name
    maxLength := ((constraints.lookup "maxLength").bind Value.asU64).filter (· < 2 ^ 32)
    min := (constraints.lookup "min").bind Value.asF64
    max := (constraints.lookup "max").bind Value.asF64
    values := (((constraints.lookup "values").bind Value.asArray).getD []).filterMap Value.asStr }

def extractInputSpecs (bundle : SetupBundle) : Option (List InputSpec) := do
  let entries ← (bundle.field "operator_inputs").bind Value.asArray
  let specs := entries.filterMap extractInputSpec?
  if specs.isEmpty then none else some specs

namespace SetupBundle

variable (bundle : SetupBundle)

def declareInputs (scene : Scene Text) : Scene Text :=
  match extractInputSpecs bundle with
  | some specs => scene.withOperatorInputs specs
  | none => scene

/-- The entries that a setup seeds: the initial state, or else the inline defaults. -/
def seeds (initialState : State) : List (String × Value) :=
  if initialState.isEmpty then ((bundle.field "defaults").bind Value.asObject).getD []
  else initialState.toList

/-- The scene that a setup puts up, before anybody operates on it. -/
def scene (P : Platform Text) (initialState : State) : Scene Text :=
  (bundle.declareInputs (bundle.checkLayout P (Scene.new bundle.effectiveId bundle.hash))).seed
    (bundle.seeds initialState)

theorem scene_spec (P : Platform Text) (initialState : State) :
    (bundle.scene P initialState).id = bundle.effectiveId ∧
      (bundle.scene P initialState).version = bundle.hash ∧
      (bundle.scene P initialState).store = overwrite ∅ (bundle.seeds initialState) := by
  unfold scene declareInputs checkLayout
  split <;> split <;> exact ⟨rfl, rfl, rfl⟩

/-- The steps of a setup after the registration. -/
def putUp (P : Platform Text) (initialState : State) (server : ServerInner Text) (r : SceneRef) :
    ServerInner Text :=
  let server := server.modifyScene r (bundle.checkLayout P)
  let server := server.modifyScene r bundle.declareInputs
  let server := server.modifyScene r fun s => s.seed (bundle.seeds initialState)
  -- The result of activating the scene is discarded.
  (server.setActiveScene bundle.effectiveId).toOption.getD server

end SetupBundle

structure TestControl (Text : Type) where
  server : ServerInner Text
  auth : MapAuthenticator
  wsUrl : String

namespace TestControl

variable (P : Platform Text) (tc : TestControl Text)

def handleSetup (req : SetupRequest) : TestControl Text × ControlResponse :=
  let tc := { tc with server := tc.server.clearScenes, auth := installTokens ∅ req.tokens }
  match req.bundles with
  | [] => (tc, .problem 400 "missing-bundle" "setup requires at least one bundle")
  | bundle :: _ =>
      match bundle.refusal with
      | some response => (tc, response)
      | none =>
          match tc.server.newSceneWithVersion bundle.effectiveId bundle.hash with
          | .error e => (tc, .problem 500 "scene-register-failed" (e.display P.toTextLayer))
          | .ok (server, r) =>
              ({ tc with server := bundle.putUp P req.initialState server r },
                .setup tc.wsUrl bundle.effectiveId bundle.hash)

def handleReset : TestControl Text × ControlResponse :=
  ({ tc with server := tc.server.clearScenes, auth := ∅ }, .noContent)

/-- The active scene, as two of the handlers look it up, each with its own detail text. -/
def lookUpActive (detail : String) : Except ControlResponse SceneRef :=
  match tc.server.active with
  | none => .error (.problem 409 "no-active-scene" detail)
  | some id =>
      match tc.server.scene id with
      | none => .error (.problem 409 "active-scene-missing" "active scene reference is stale")
      | some r => .ok r

def handleState : ControlResponse :=
  match tc.lookUpActive "no scene is currently active; call /test/setup first" with
  | .error response => response
  | .ok r =>
      let scene := (tc.server.heap r).scene
      .state scene.id scene.version scene.snapshotState

/-- The error code of a refused emission. -/
def emitErrorCode : ServerError → String
  | .invalidValue _ | .protocol _ => "INVALID_VALUE"
  | _ => "INTERNAL"

def handleEmit (pairs : List (String × Value)) : TestControl Text × ControlResponse :=
  match tc.lookUpActive "no scene is currently active" with
  | .error response => (tc, response)
  | .ok r =>
      if pairs.isEmpty then (tc, .noContent)
      else
        match (tc.server.heap r).scene.emit pairs with
        | .error e => (tc, .emitError (emitErrorCode e) (e.display P.toTextLayer))
        | .ok scene => ({ tc with server := tc.server.modifyScene r fun _ => scene }, .noContent)

end TestControl

/-! ## Requests and operations in sequence -/

/-- A request to the control plane, or a call on a scene at some place. -/
inductive ControlEvent (Place Text : Type) where
  | setup (req : SetupRequest)
  | reset
  | state
  | emit (pairs : List (String × Value))
  | health
  /-- A connection, an adapter or the program calls a scene that it holds a handle to. -/
  | scene (place : Place) (call : SceneCall Text)

namespace TestControl

variable (P : Platform Text)

def serve (tc : TestControl Text) :
    ControlEvent SceneRef Text → TestControl Text × Option ControlResponse
  | .setup req => ((tc.handleSetup P req).1, some (tc.handleSetup P req).2)
  | .reset => (tc.handleReset.1, some tc.handleReset.2)
  | .state => (tc, some tc.handleState)
  | .emit pairs => ((tc.handleEmit P pairs).1, some (tc.handleEmit P pairs).2)
  | .health => (tc, some .health)
  | .scene r call =>
      ({ tc with server := tc.server.modifyScene r fun s => s.call P.toTextLayer call }, none)

/-- The control plane after a sequence of events, and the responses it gave. -/
def serveAll (tc : TestControl Text) :
    List (ControlEvent SceneRef Text) → TestControl Text × List ControlResponse
  | [] => (tc, [])
  | e :: events =>
      let served := tc.serve P e
      let rest := serveAll served.1 events
      (rest.1, served.2.toList ++ rest.2)

end TestControl

/-! ## The stage -/

namespace Stage

variable (P : Platform Text) (wsUrl : String)

/-- At most one scene, as the last setup put it up and as it was called since. A call is on
the scene on stage, or on a scene that has left it. -/
def serve (stage : Option (Scene Text)) :
    ControlEvent Bool Text → Option (Scene Text) × Option ControlResponse
  | .setup req =>
      match req.bundles with
      | [] => (none, some (.problem 400 "missing-bundle" "setup requires at least one bundle"))
      | bundle :: _ =>
          match bundle.refusal with
          | some response => (none, some response)
          | none => (some (bundle.scene P req.initialState),
              some (.setup wsUrl bundle.effectiveId bundle.hash))
  | .reset => (none, some .noContent)
  | .state =>
      match stage with
      | none => (none, some (.problem 409 "no-active-scene"
          "no scene is currently active; call /test/setup first"))
      | some scene => (some scene, some (.state scene.id scene.version scene.store))
  | .emit pairs =>
      match stage with
      | none => (none, some (.problem 409 "no-active-scene" "no scene is currently active"))
      | some scene => (some (scene.apply P.toTextLayer (.emit pairs none)),
          some (match parsePairs pairs with
            | .ok _ => .noContent
            | .error e => .emitError "INVALID_VALUE" (e.display P.toTextLayer)))
  | .health => (stage, some .health)
  | .scene onStage call =>
      (if onStage then stage.map fun s => s.call P.toTextLayer call else stage, none)

def serveAll (stage : Option (Scene Text)) :
    List (ControlEvent Bool Text) → Option (Scene Text) × List ControlResponse
  | [] => (stage, [])
  | e :: events =>
      let served := serve P wsUrl stage e
      let rest := serveAll served.1 events
      (rest.1, served.2.toList ++ rest.2)

end Stage

namespace TestControl

/-- The registered active scene. -/
def stage (tc : TestControl Text) : Option (Scene Text) :=
  tc.server.activeScene.map fun r => (tc.server.heap r).scene

/-- An event as it is seen from the stage. -/
def observe (tc : TestControl Text) : ControlEvent SceneRef Text → ControlEvent Bool Text
  | .setup req => .setup req
  | .reset => .reset
  | .state => .state
  | .emit pairs => .emit pairs
  | .health => .health
  | .scene r call => .scene (decide (tc.server.activeScene = some r)) call

def observeAll (P : Platform Text) (tc : TestControl Text) :
    List (ControlEvent SceneRef Text) → List (ControlEvent Bool Text)
  | [] => []
  | e :: events => tc.observe e :: observeAll P (tc.serve P e).1 events

/-- The active identifier is registered, and nothing else is. -/
structure Sound (tc : TestControl Text) : Prop where
  registered : ∀ id, tc.server.active = some id → (tc.server.scene id).isSome
  alone : ∀ id, (tc.server.scene id).isSome → tc.server.active = some id

end TestControl

namespace ServerInner

variable (inner : ServerInner Text) (r : SceneRef) (f : Scene Text → Scene Text)

@[simp] theorem modifyScene_scenes : (inner.modifyScene r f).scenes = inner.scenes := rfl

@[simp] theorem modifyScene_active : (inner.modifyScene r f).active = inner.active := rfl

@[simp] theorem scene_modifyScene : (inner.modifyScene r f).scene = inner.scene := rfl

@[simp] theorem activeScene_modifyScene :
    (inner.modifyScene r f).activeScene = inner.activeScene := rfl

theorem heap_modifyScene (q : SceneRef) :
    ((inner.modifyScene r f).heap q).scene =
      if q = r then f (inner.heap q).scene else (inner.heap q).scene := by
  by_cases same : q = r
  · subst same
    simp [modifyScene, setCell]
  · simp [modifyScene, setCell, same]

/-- An operation that leaves the scene as it is changes nothing. -/
theorem modifyScene_eq_self {inner : ServerInner Text} {r : SceneRef}
    {f : Scene Text → Scene Text} (same : f (inner.heap r).scene = (inner.heap r).scene) :
    inner.modifyScene r f = inner := by
  rw [modifyScene, same, setCell, Function.update_eq_self]

@[simp] theorem scene_clearScenes (id : SceneId) : inner.clearScenes.scene id = none := by
  simp [clearScenes, scene]

end ServerInner

namespace TestControl

variable {P : Platform Text} {tc tc' : TestControl Text}

/-- An active scene of a sound control plane is found. -/
theorem Sound.lookUpActive (sound : tc.Sound) (detail : String) :
    tc.lookUpActive detail = match tc.server.activeScene with
      | some r => .ok r
      | none => .error (.problem 409 "no-active-scene" detail) := by
  rw [TestControl.lookUpActive, ServerInner.activeScene]
  cases active : tc.server.active with
  | none => rfl
  | some id =>
      obtain ⟨r, found⟩ := Option.isSome_iff_exists.mp (sound.registered id active)
      simp [found]

theorem Sound.handleState (sound : tc.Sound) : tc.handleState = match tc.stage with
    | some scene => .state scene.id scene.version scene.store
    | none => .problem 409 "no-active-scene"
        "no scene is currently active; call /test/setup first" := by
  rw [TestControl.handleState, sound.lookUpActive, stage]
  cases tc.server.activeScene <;> rfl

theorem sound_cleared (server : ServerInner Text) (auth : MapAuthenticator) (wsUrl : String) :
    (⟨server.clearScenes, auth, wsUrl⟩ : TestControl Text).Sound where
  registered := by simp [ServerInner.clearScenes]
  alone := by simp

/-- Operating on scene objects keeps the registry. -/
theorem Sound.modifyScene (sound : tc.Sound) (r : SceneRef) (f : Scene Text → Scene Text) :
    ({ tc with server := tc.server.modifyScene r f } : TestControl Text).Sound where
  registered := sound.registered
  alone := sound.alone

theorem stage_modifyScene (tc : TestControl Text) (r : SceneRef) (f : Scene Text → Scene Text) :
    ({ tc with server := tc.server.modifyScene r f } : TestControl Text).stage =
      if tc.server.activeScene = some r then tc.stage.map f else tc.stage := by
  simp only [stage, ServerInner.activeScene_modifyScene, ServerInner.heap_modifyScene]
  cases tc.server.activeScene with
  | none => rfl
  | some q => by_cases same : q = r <;> simp [same]

/-- A registered scene is prepared and activated. -/
theorem putUp_spec {bundle : SetupBundle} (initialState : State) {server : ServerInner Text}
    {r : SceneRef} (registered : server.scene bundle.effectiveId = some r) :
    (bundle.putUp P initialState server r).scene = server.scene ∧
      (bundle.putUp P initialState server r).active = some bundle.effectiveId ∧
      (bundle.putUp P initialState server r).nextRef = server.nextRef ∧
      ((bundle.putUp P initialState server r).heap r).scene =
        (bundle.declareInputs (bundle.checkLayout P (server.heap r).scene)).seed
          (bundle.seeds initialState) := by
  simp only [SetupBundle.putUp, ServerInner.setActiveScene, ServerInner.scene_modifyScene,
    registered, Option.isSome_some, if_true, Except.toOption, Option.getD_some]
  refine ⟨rfl, trivial, rfl, ?_⟩
  simp [ServerInner.heap_modifyScene]

/-- What an accepted setup leaves behind: its scene alone, under the next reference. -/
structure PutUp (P : Platform Text) (tc : TestControl Text) (req : SetupRequest)
    (bundle : SetupBundle) (tc' : TestControl Text) : Prop where
  auth : tc'.auth = installTokens ∅ req.tokens
  wsUrl : tc'.wsUrl = tc.wsUrl
  next : tc'.server.nextRef = tc.server.nextRef + 1
  scenes : ∀ id, tc'.server.scene id =
    if bundle.effectiveId = id then some tc.server.nextRef else none
  active : tc'.server.active = some bundle.effectiveId
  heap : (tc'.server.heap tc.server.nextRef).scene = bundle.scene P req.initialState

theorem handleSetup_accepted (tc : TestControl Text) {req : SetupRequest} {bundle : SetupBundle}
    {rest : List SetupBundle} (bundles : req.bundles = bundle :: rest)
    (accepted : bundle.refusal = none) :
    PutUp P tc req bundle (tc.handleSetup P req).1 ∧
      (tc.handleSetup P req).2 = .setup tc.wsUrl bundle.effectiveId bundle.hash := by
  let created := (tc.server.clearScenes.insert bundle.effectiveId
    (Scene.new bundle.effectiveId bundle.hash)).activate bundle.effectiveId
  have create : tc.server.clearScenes.newSceneWithVersion bundle.effectiveId bundle.hash =
      .ok (created, tc.server.nextRef) := by
    rw [ServerInner.newSceneWithVersion, ServerInner.scene_clearScenes]
    rfl
  have registered : ∀ id, created.scene id =
      if bundle.effectiveId = id then some tc.server.nextRef else none := by
    intro id
    simp [created, ServerInner.activate, ServerInner.insert, ServerInner.scene,
      ServerInner.clearScenes, Std.ExtTreeMap.getElem?_insert]
  have handled : tc.handleSetup P req =
      ({ server := bundle.putUp P req.initialState created tc.server.nextRef
         auth := installTokens ∅ req.tokens, wsUrl := tc.wsUrl },
        .setup tc.wsUrl bundle.effectiveId bundle.hash) := by
    unfold handleSetup
    simp only [bundles, accepted, create]
  obtain ⟨scenes, active, next, heap⟩ := putUp_spec (P := P) req.initialState
    (registered bundle.effectiveId |>.trans (if_pos rfl))
  have fresh : (created.heap tc.server.nextRef).scene =
      Scene.new bundle.effectiveId bundle.hash := by
    simp [created, ServerInner.activate, ServerInner.insert, ServerInner.setCell,
      ServerInner.clearScenes]
  rw [handled]
  refine ⟨⟨rfl, rfl, next, fun id => by rw [scenes, registered], active, ?_⟩, rfl⟩
  rw [heap, fresh, SetupBundle.scene]

namespace PutUp

variable {req : SetupRequest} {bundle : SetupBundle}

theorem activeScene (up : PutUp P tc req bundle tc') :
    tc'.server.activeScene = some tc.server.nextRef := by
  simp [ServerInner.activeScene, up.active, up.scenes]

theorem stage (up : PutUp P tc req bundle tc') :
    tc'.stage = some (bundle.scene P req.initialState) := by
  rw [TestControl.stage, up.activeScene, Option.map_some, up.heap]

theorem sound (up : PutUp P tc req bundle tc') : tc'.Sound where
  registered := by
    intro id named
    rw [up.active, Option.some.injEq] at named
    simp [up.scenes, named]
  alone := by
    intro id found
    have named : bundle.effectiveId = id := by simpa [up.scenes] using found
    rw [up.active, named]

end PutUp

/-- The two ways in which an emission fails have one code. -/
theorem emitErrorCode_of_parsePairs {pairs : List (String × Value)} {e : ServerError}
    (refused : parsePairs pairs = .error e) : emitErrorCode e = "INVALID_VALUE" := by
  obtain ⟨pair, _, refused⟩ := exists_error_of_mapM refused
  unfold parsePair at refused
  split at refused
  · cases refused
    rfl
  · split at refused
    · cases refused
      rfl
    · cases refused

/-- An emission on the active scene. -/
theorem handleEmit_active {r : SceneRef} (pairs : List (String × Value))
    (active : tc.lookUpActive "no scene is currently active" = .ok r) :
    (tc.handleEmit P pairs).1 = { tc with
        server := tc.server.modifyScene r (·.apply P.toTextLayer (.emit pairs none)) } ∧
      (tc.handleEmit P pairs).2 = match parsePairs pairs with
        | .ok _ => .noContent
        | .error e => .emitError "INVALID_VALUE" (e.display P.toTextLayer) := by
  have unchanged : ∀ {s : Scene Text}, (∀ s', s.emit pairs = .ok s' → s' = s) →
      s.apply P.toTextLayer (.emit pairs none) = s := by
    intro s same
    rw [Scene.apply, ← Scene.emit]
    cases emitted : s.emit pairs with
    | error e => rfl
    | ok s' => exact same s' emitted
  rw [handleEmit, active]
  dsimp only
  cases empty : pairs.isEmpty with
  | true =>
      obtain rfl := List.isEmpty_iff.mp empty
      rw [ServerInner.modifyScene_eq_self (unchanged fun s' h => (Except.ok.inj h).symm)]
      exact ⟨rfl, rfl⟩
  | false =>
      cases parsed : parsePairs pairs with
      | error e =>
          have refused : (tc.server.heap r).scene.emit pairs = .error e := by
            rw [Scene.emit, Scene.emitWithCause, parsed]
            rfl
          rw [ServerInner.modifyScene_eq_self (unchanged fun s' h => by
            rw [refused] at h
            cases h)]
          simp [refused, emitErrorCode_of_parsePairs parsed]
      | ok patches =>
          have emitted : (tc.server.heap r).scene.emit pairs =
              .ok ((tc.server.heap r).scene.apply P.toTextLayer (.emit pairs none)) := by
            rw [Scene.emit, Scene.apply, Scene.emitWithCause, parsed]
            rfl
          rw [emitted]
          exact ⟨rfl, rfl⟩

/-- A setup puts its first bundle up, or answers why it does not. -/
theorem handleSetup_cases (P : Platform Text) (tc : TestControl Text) (req : SetupRequest) :
    (∃ bundle rest, req.bundles = bundle :: rest ∧ bundle.refusal = none ∧
      PutUp P tc req bundle (tc.handleSetup P req).1 ∧
      (tc.handleSetup P req).2 = .setup tc.wsUrl bundle.effectiveId bundle.hash) ∨
    ((tc.handleSetup P req).1 =
        { server := tc.server.clearScenes, auth := installTokens ∅ req.tokens
          wsUrl := tc.wsUrl } ∧
      ((req.bundles = [] ∧ (tc.handleSetup P req).2 =
          .problem 400 "missing-bundle" "setup requires at least one bundle") ∨
        ∃ bundle rest, req.bundles = bundle :: rest ∧
          bundle.refusal = some (tc.handleSetup P req).2)) := by
  cases bundles : req.bundles with
  | nil =>
      refine .inr ⟨?_, .inl ⟨rfl, ?_⟩⟩ <;>
      · unfold handleSetup
        rw [bundles]
  | cons bundle rest =>
      cases refusal : bundle.refusal with
      | none =>
          obtain ⟨up, response⟩ := handleSetup_accepted (P := P) tc bundles refusal
          exact .inl ⟨bundle, rest, rfl, refusal, up, response⟩
      | some response =>
          have refused : tc.handleSetup P req =
              ({ server := tc.server.clearScenes, auth := installTokens ∅ req.tokens
                 wsUrl := tc.wsUrl }, response) := by
            unfold handleSetup
            simp only [bundles, refusal]
          rw [refused]
          exact .inr ⟨rfl, .inr ⟨bundle, rest, rfl, refusal⟩⟩

/-- A setup leads to the stage that the request describes, from any state. -/
theorem setup_refines (tc : TestControl Text) (req : SetupRequest) (stage : Option (Scene Text)) :
    (tc.handleSetup P req).1.Sound ∧ (tc.handleSetup P req).1.wsUrl = tc.wsUrl ∧
      ((tc.handleSetup P req).1.stage, some (tc.handleSetup P req).2) =
        Stage.serve P tc.wsUrl stage (.setup req) := by
  have blank : ∀ auth, (⟨tc.server.clearScenes, auth, tc.wsUrl⟩ : TestControl Text).stage = none :=
    fun _ => rfl
  rcases handleSetup_cases P tc req with
    ⟨bundle, rest, bundles, accepted, up, response⟩ | ⟨after, ⟨bundles, response⟩ |
      ⟨bundle, rest, bundles, refused⟩⟩
  · refine ⟨up.sound, up.wsUrl, ?_⟩
    simp only [Stage.serve, response, up.stage, bundles, accepted]
  · refine ⟨after ▸ sound_cleared .., by rw [after], ?_⟩
    simp only [Stage.serve, response, bundles, after, blank]
  · refine ⟨after ▸ sound_cleared .., by rw [after], ?_⟩
    simp only [Stage.serve, bundles, refused, after, blank]

/-- Every event has the effect on the stage, and the response, that the stage gives. -/
theorem serve_refines (sound : tc.Sound) (e : ControlEvent SceneRef Text) :
    (tc.serve P e).1.Sound ∧ (tc.serve P e).1.wsUrl = tc.wsUrl ∧
      ((tc.serve P e).1.stage, (tc.serve P e).2) =
        Stage.serve P tc.wsUrl tc.stage (tc.observe e) := by
  cases e with
  | setup req => exact setup_refines tc req tc.stage
  | reset => exact ⟨sound_cleared .., rfl, rfl⟩
  | state =>
      refine ⟨sound, rfl, ?_⟩
      rw [serve, sound.handleState, observe]
      cases tc.stage <;> rfl
  | emit pairs =>
      simp only [serve, observe]
      cases active : tc.server.activeScene with
      | none =>
          have missing := sound.lookUpActive "no scene is currently active"
          rw [active] at missing
          simp [handleEmit, missing, Stage.serve, stage, active, sound]
      | some r =>
          have found := sound.lookUpActive "no scene is currently active"
          rw [active] at found
          obtain ⟨after, response⟩ := handleEmit_active (P := P) pairs found
          rw [after, response]
          refine ⟨sound.modifyScene .., rfl, ?_⟩
          rw [stage_modifyScene, if_pos active, stage, active]
          rfl
  | health => exact ⟨sound, rfl, rfl⟩
  | scene r call =>
      refine ⟨sound.modifyScene .., rfl, ?_⟩
      simp only [serve, stage_modifyScene, observe, Stage.serve, decide_eq_true_eq]

/-- The rules of `serve_refines`, for a sequence. -/
theorem serveAll_refines (sound : tc.Sound) (events : List (ControlEvent SceneRef Text)) :
    (tc.serveAll P events).1.Sound ∧ (tc.serveAll P events).1.wsUrl = tc.wsUrl ∧
      ((tc.serveAll P events).1.stage, (tc.serveAll P events).2) =
        Stage.serveAll P tc.wsUrl tc.stage (tc.observeAll P events) := by
  induction events generalizing tc with
  | nil => exact ⟨sound, rfl, rfl⟩
  | cons e events ih =>
      obtain ⟨sound', wsUrl, step⟩ := serve_refines (P := P) sound e
      obtain ⟨sound'', wsUrl', rest⟩ := ih sound'
      refine ⟨sound'', wsUrl'.trans wsUrl, ?_⟩
      simp only [serveAll, observeAll, Stage.serveAll]
      rw [← step, ← wsUrl, ← rest]

/-- A control plane in front of a server that has no scenes yet. -/
theorem sound_of_unregistered {server : ServerInner Text} (unregistered : server.scenes = ∅)
    (inactive : server.active = none) (auth : MapAuthenticator) (wsUrl : String) :
    (⟨server, auth, wsUrl⟩ : TestControl Text).Sound where
  registered := by simp [inactive]
  alone := by simp [ServerInner.scene, unregistered]

end TestControl

/-- One of the two responses to a registry that contradicts itself. -/
def ControlResponse.isRegistryFault : ControlResponse → Bool
  | .problem _ code _ => code = "active-scene-missing" || code = "scene-register-failed"
  | _ => false

theorem SetupBundle.refusal_sound {bundle : SetupBundle} {response : ControlResponse}
    (refused : bundle.refusal = some response) : response.isRegistryFault = false := by
  unfold refusal at refused
  split at refused
  · cases refused
    rfl
  · split at refused
    · cases refused
      rfl
    · cases refused

/-- The stage never misses its scene, and never fails to put one up. -/
theorem Stage.serve_sound {P : Platform Text} {wsUrl : String} {stage : Option (Scene Text)}
    {e : ControlEvent Bool Text} {response : ControlResponse}
    (given : (Stage.serve P wsUrl stage e).2 = some response) :
    response.isRegistryFault = false := by
  cases e with
  | setup req =>
      rw [Stage.serve] at given
      split at given
      · cases given
        rfl
      · split at given
        · next refused =>
          cases given
          exact SetupBundle.refusal_sound refused
        · cases given
          rfl
  | state => cases stage <;> cases given <;> rfl
  | emit pairs =>
      cases stage with
      | none =>
          cases given
          rfl
      | some scene =>
          cases given
          split <;> rfl
  | reset | health =>
      cases given
      rfl
  | scene => cases given

theorem Stage.serveAll_sound {P : Platform Text} {wsUrl : String} {stage : Option (Scene Text)}
    {events : List (ControlEvent Bool Text)} {response : ControlResponse}
    (given : response ∈ (Stage.serveAll P wsUrl stage events).2) :
    response.isRegistryFault = false := by
  induction events generalizing stage with
  | nil => cases given
  | cons e events ih =>
      rcases List.mem_append.mp given with now | later
      · exact Stage.serve_sound (Option.mem_toList.mp now)
      · exact ih later

namespace TestControl

variable {P : Platform Text} {tc tc' : TestControl Text}

/-- On every sequence of requests, interleaved with any calls on any scenes, the control
plane of a new server answers as the stage does. Its registry holds the active scene and
nothing else, and two of its error responses are never given. -/
theorem control_refines_stage (P : Platform Text) (server : ServerInner Text)
    (unregistered : server.scenes = ∅) (inactive : server.active = none) (auth : MapAuthenticator)
    (wsUrl : String) (events : List (ControlEvent SceneRef Text)) :
    let tc : TestControl Text := ⟨server, auth, wsUrl⟩
    let served := tc.serveAll P events
    (served.1.stage, served.2) = Stage.serveAll P wsUrl none (tc.observeAll P events) ∧
      (∀ id, served.1.server.active = some id ↔ (served.1.server.scene id).isSome) ∧
      ∀ response ∈ served.2, response.isRegistryFault = false := by
  intro tc served
  have start : tc.Sound := sound_of_unregistered unregistered inactive auth wsUrl
  have blank : tc.stage = none := by simp [tc, stage, ServerInner.activeScene, inactive]
  obtain ⟨sound, _, refines⟩ := serveAll_refines (P := P) start events
  rw [blank] at refines
  refine ⟨refines, fun id => ⟨sound.registered id, sound.alone id⟩, fun response given => ?_⟩
  exact Stage.serveAll_sound (congrArg Prod.snd refines ▸ given)

/-- A harness that sets a lamp up as switched off. -/
def lampSetup : SetupRequest where
  tokens := (∅ : Std.ExtTreeMap String String).insert "$TOKEN_OPERATOR" "op"
  bundles := [{ id := "lamps", hash := "sha256:00" }]
  initialState := (∅ : State).insert "lamp" (.bool false)

theorem control_refines_stage_lamp :
    let tc : TestControl Value := ⟨twoScenes.inner.clearScenes, ∅, ""⟩
    let served := tc.serveAll valuePlatform
      [.setup lampSetup, .emit [("lamp", .bool true)], .scene 0 (.operate .advanceSeqForChange),
        .scene 2 (.seed [("fan", .null)]), .state]
    served.2 = [.setup "" "lamps" "sha256:00", .noContent, .state "lamps" "sha256:00"
          (((∅ : State).insert "lamp" (.bool true)).insert "fan" .null)] ∧
      ∀ response ∈ served.2, response.isRegistryFault = false := by
  refine ⟨by decide, ?_⟩
  exact (control_refines_stage valuePlatform twoScenes.inner.clearScenes rfl rfl ∅ ""
    _).2.2
end TestControl
end Lumencast.Server
