import Lumencast.Conformance.Harness
import Lumencast.Server.SetupIsolation

/-!
# The harness over the control plane

The control plane of this repository as a driver, with sockets on which nothing arrives.
What can be told of its state from the outside is the stage and the tokens, `Alike`, and
a setup makes any two states alike. So it satisfies the assumptions under which the
outcomes of a suite do not depend on the order of its scenarios.
-/

namespace Lumencast.Conformance

open Foundation Protocol
open Server (Framework ControlEvent MapAuthenticator ServerInner SceneRef TestControl)

variable {Text : Type}

/-- Two states of a control plane that its clients cannot tell apart. -/
structure Alike (tc tc' : TestControl Text) : Prop where
  sound : tc.Sound
  sound' : tc'.Sound
  stage : tc.stage = tc'.stage
  auth : tc.auth = tc'.auth
  wsUrl : tc.wsUrl = tc'.wsUrl

namespace Alike

variable {P : Platform Text} {F : Framework Text} {tc tc' : TestControl Text}

/-- Tokens are written by setups and resets alone. -/
theorem auth_serve (auth : tc.auth = tc'.auth) (e : ControlEvent SceneRef Text) :
    (tc.serve P e).1.auth = (tc'.serve P e).1.auth := by
  cases e with
  | setup req =>
      exact (TestControl.auth_handleSetup req).trans (TestControl.auth_handleSetup req).symm
  | reset => rfl
  | state | health | scene => exact auth
  | emit pairs =>
      have kept : (.emit pairs : ControlEvent SceneRef Text).Keeps := trivial
      rw [TestControl.auth_serve kept, TestControl.auth_serve kept, auth]

/-- A request has the same response from states that are alike, and leaves them alike. -/
theorem serve (alike : Alike tc tc') {e : ControlEvent SceneRef Text}
    (request : tc.observe e = tc'.observe e) :
    (tc.serve P e).2 = (tc'.serve P e).2 ∧ Alike (tc.serve P e).1 (tc'.serve P e).1 := by
  obtain ⟨sound, wsUrl, refines⟩ := TestControl.serve_refines (P := P) alike.sound e
  obtain ⟨sound', wsUrl', refines'⟩ := TestControl.serve_refines (P := P) alike.sound' e
  have same : ((tc.serve P e).1.stage, (tc.serve P e).2) =
      ((tc'.serve P e).1.stage, (tc'.serve P e).2) := by
    rw [refines, refines', alike.wsUrl, alike.stage, request]
  rw [Prod.mk.injEq] at same
  exact ⟨same.2, sound, sound', same.1, auth_serve alike.auth e,
    wsUrl.trans (alike.wsUrl.trans wsUrl'.symm)⟩

/-- A setup forgets what was before. -/
theorem handleSetup (P : Platform Text) (tc tc' : TestControl Text) (wsUrl : tc.wsUrl = tc'.wsUrl)
    (req : Server.SetupRequest) :
    (tc.handleSetup P req).2 = (tc'.handleSetup P req).2 ∧
      Alike (tc.handleSetup P req).1 (tc'.handleSetup P req).1 := by
  obtain ⟨sound, url, refines⟩ := TestControl.setup_refines (P := P) tc req none
  obtain ⟨sound', url', refines'⟩ := TestControl.setup_refines (P := P) tc' req none
  have same : ((tc.handleSetup P req).1.stage, some (tc.handleSetup P req).2) =
      ((tc'.handleSetup P req).1.stage, some (tc'.handleSetup P req).2) := by
    rw [refines, refines', wsUrl]
  rw [Prod.mk.injEq, Option.some.injEq] at same
  exact ⟨same.2, sound, sound', same.1,
    (TestControl.auth_handleSetup req).trans (TestControl.auth_handleSetup req).symm,
    url.trans (wsUrl.trans url'.symm)⟩

theorem serveHttp (alike : Alike tc tc') (req : Server.HttpRequest Text) :
    (tc.serveHttp P F req).2 = (tc'.serveHttp P F req).2 ∧
      Alike (tc.serveHttp P F req).1 (tc'.serveHttp P F req).1 := by
  unfold TestControl.serveHttp
  let render (response : Server.ControlResponse) := response.toHttp P.toTextLayer
  dsimp only
  split
  · exact ⟨rfl, alike⟩
  · split
    · exact ⟨rfl, alike⟩
    · next setup _ =>
      have served := alike.serve (P := P) (e := .setup setup) rfl
      exact ⟨congrArg render (Option.some.inj served.1), served.2⟩
  · exact ⟨rfl, (alike.serve (P := P) (e := .reset) rfl).2⟩
  · have served := alike.serve (P := P) (e := .state) rfl
    exact ⟨congrArg render (Option.some.inj served.1), alike⟩
  · split
    · exact ⟨rfl, alike⟩
    · next pairs _ =>
      have served := alike.serve (P := P) (e := .emit pairs) rfl
      exact ⟨congrArg render (Option.some.inj served.1), served.2⟩
  · exact ⟨rfl, alike⟩

/-- The address stays. -/
theorem wsUrl_serveHttp (sound : tc.Sound) (req : Server.HttpRequest Text) :
    (tc.serveHttp P F req).1.wsUrl = tc.wsUrl := by
  have kept (e : ControlEvent SceneRef Text) : (tc.serve P e).1.wsUrl = tc.wsUrl :=
    (TestControl.serve_refines sound e).2.1
  unfold TestControl.serveHttp
  dsimp only
  split
  · rfl
  · split
    · rfl
    · next setup _ => exact kept (.setup setup)
  · rfl
  · rfl
  · split
    · rfl
    · next pairs _ => exact kept (.emit pairs)
  · rfl

end Alike

/-! ## The driver -/

/-- The part of the state that requests change. -/
abbrev Plane (Text : Type) := ServerInner Text × MapAuthenticator

section

variable (P : Platform Text) (F : Framework Text) (wsUrl : String)

def Plane.control (s : Plane Text) : TestControl Text := ⟨s.1, s.2, wsUrl⟩

/-- The control plane under one address. Its sockets open, take every text and stay silent. -/
def controlDriver : Driver Text (Plane Text) where
  http := fun req => Effect.mk fun s =>
    let served := (Plane.control wsUrl s).serveHttp P F req
    (.ok served.2, (served.1.server, served.1.auth))
  urlParses := fun _ => true
  connect := fun _ => pure ()
  send := fun _ => pure ()
  next := fun s => (.none, s)
  nextWithin := fun _ s => (none, s)
  dropSocket := id

variable {P} {F} {wsUrl}

theorem control_eq {tc : TestControl Text} (address : tc.wsUrl = wsUrl) :
    Plane.control wsUrl (tc.server, tc.auth) = tc := by
  rw [← address]
  rfl

/-- The driver answers alike in states that are alike. -/
theorem controlDriver_respects : (controlDriver P F wsUrl).Respects fun s t =>
    Alike (s.control wsUrl) (t.control wsUrl) where
  http req := by
    intro s t alike
    obtain ⟨same, after⟩ := alike.serveHttp (P := P) (F := F) req
    refine ⟨congrArg Except.ok same, ?_⟩
    rw [← control_eq (Alike.wsUrl_serveHttp alike.sound req),
      ← control_eq (Alike.wsUrl_serveHttp alike.sound' req)] at after
    exact after
  connect _ := .pure _
  send _ := .pure _
  next _ _ alike := ⟨rfl, alike⟩
  nextWithin _ _ _ alike := ⟨rfl, alike⟩
  dropSocket _ _ alike := alike

/-- A setup makes any two states alike. -/
theorem controlDriver_forgets (asked : ∀ body : SetupRequest, P.ReadsBack body.toValue) :
    (controlDriver P F wsUrl).Forgets P.toTextLayer fun s t =>
      Alike (s.control wsUrl) (t.control wsUrl) := by
  intro body s t
  have first : ∀ s : Plane Text, Effect.exec ((controlDriver P F wsUrl).http
      ⟨.post, "/test/setup", (some body.toValue).map P.toText⟩) s =
        let set := (s.control wsUrl).handleSetup P body.received
        (.ok (set.2.toHttp P.toTextLayer), (set.1.server, set.1.auth)) := by
    intro s
    rw [controlDriver, Effect.exec_mk, serveHttp_setup F (s.control wsUrl) (asked body)]
  have address : ∀ s : Plane Text,
      ((s.control wsUrl).handleSetup P body.received).1.wsUrl = wsUrl :=
    fun s => (TestControl.setup_refines (s.control wsUrl) body.received none).2.1
  obtain ⟨same, after⟩ :=
    Alike.handleSetup P (s.control wsUrl) (t.control wsUrl) rfl body.received
  let R (s t : Plane Text) : Prop := Alike (s.control wsUrl) (t.control wsUrl)
  unfold ControlClient.setup ControlClient.send
  refine Effect.Agree.bind_from (R := R) (Effect.Agree.bind_from ⟨?_, ?_⟩ fun _ => ?_)
    fun response => Driver.Respects.json (P := P) SetupResponse.ofValue response
  · rw [Effect.mapError, Effect.exec_mk, Effect.exec_mk, first, first]
    dsimp only
    rw [same]
  · rw [Effect.mapError, Effect.exec_mk, Effect.exec_mk, first, first]
    change Alike _ _
    rwa [control_eq (address s), control_eq (address t)]
  · exact .ite (.pure _) (.throw _)

end

/-- One scenario that looks at the state it has set up, one that expects another state, and one
for runtimes. -/
def lampSuite : List Scenario :=
  let lamps (on : Bool) : InlineBundle :=
    { id := "lamps", inlined := objectOf [("defaults", objectOf [("lamp", .bool on)])] }
  let dark : Scenario.Step := .expectServerState ((∅ : State).insert "lamp" (.bool false))
  [{ name := "on", bundles := [lamps true], steps := [dark] },
    { name := "off", bundles := [lamps false], steps := [dark] },
    { name := "runtime", target := .runtime, steps := [] }]

theorem run_isolates_lampSuite :
    let plain : Framework Value := ⟨fun _ => ⟨404, none⟩, fun _ => ⟨422, none⟩⟩
    let rendering : Rendering Value :=
      ⟨fun _ => "value", fun _ => "value", fun _ => "message", fun _ => "http", fun _ => "body"⟩
    let d := controlDriver valuePlatform plain "ws://lamp"
    let report := (run valuePlatform rendering d {} lampSuite (Server.twoScenes.inner, ∅)).1
    report.outcomes.map (fun o => (o.name, o.passed, o.skipped)) =
        [("on", false, false), ("off", true, false), ("runtime", false, true)] ∧
      exitCode report = 1 := by
  intro plain rendering d report
  have forgets : d.Forgets valuePlatform.toTextLayer fun s t =>
      Alike (s.control "ws://lamp") (t.control "ws://lamp") := controlDriver_forgets fun _ => rfl
  have counted : report = .of ((filterScenarios {} lampSuite).map
      (outcome valuePlatform rendering d ∅ (Server.twoScenes.inner.clearScenes, ∅))) :=
    (run_isolates controlDriver_respects forgets {} lampSuite _ _).1
  rw [counted]
  exact ⟨by decide, by decide⟩

end Lumencast.Conformance
