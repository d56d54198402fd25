import Lumencast.Server.BundleScenes
import Lumencast.Server.TestControl

/-!
# Isolation of setups

What a harness can tell after a setup depends on the setup and on what it
requested since. Scene objects of earlier setups may still be operated on by those
who hold handles to them; they were created before the scene on stage, and are
never on stage again.
-/

namespace Lumencast.Server

open Foundation Protocol

variable {Text : Type}

namespace ControlEvent

variable {Place : Type}

/-- A request of the harness, and not a call on a scene. -/
def isRequest : ControlEvent Place Text → Bool
  | .scene .. => false
  | .setup _ | .reset | .state | .emit _ | .health => true

/-- A request, or a call on a scene object that was created before number `k`. -/
def Leaves (k : SceneRef) : ControlEvent SceneRef Text → Prop
  | .scene r _ => r < k
  | .setup _ | .reset | .state | .emit _ | .health => True

/-- The event with its call, if it is one, off the stage. -/
def offStage : ControlEvent Place Text → ControlEvent Bool Text
  | .setup req => .setup req
  | .reset => .reset
  | .state => .state
  | .emit pairs => .emit pairs
  | .health => .health
  | .scene _ call => .scene false call

end ControlEvent

/-- Calls off the stage are not noticed. -/
theorem Stage.serveAll_filter (P : Platform Text) (wsUrl : String) {Place : Type}
    (stage : Option (Scene Text)) (events : List (ControlEvent Place Text)) :
    Stage.serveAll P wsUrl stage (events.map ControlEvent.offStage) =
      Stage.serveAll P wsUrl stage
        ((events.filter ControlEvent.isRequest).map ControlEvent.offStage) := by
  induction events generalizing stage with
  | nil => rfl
  | cons e events ih =>
      cases e with
      | scene place call =>
          rw [List.filter_cons_of_neg (by simp [ControlEvent.isRequest]), ← ih]
          rfl
      | setup | reset | state | emit | health =>
          rw [List.filter_cons_of_pos rfl, List.map_cons, List.map_cons, Stage.serveAll,
            Stage.serveAll, ih]

namespace TestControl

variable {P : Platform Text} {tc tc' : TestControl Text}

/-- The scene on stage was created at number `k` or later. -/
structure Since (k : SceneRef) (tc : TestControl Text) : Prop where
  next : k ≤ tc.server.nextRef
  active : ∀ r, tc.server.activeScene = some r → k ≤ r

theorem Since.cleared {k : SceneRef} {server : ServerInner Text} (next : k ≤ server.nextRef)
    (auth : MapAuthenticator) (wsUrl : String) :
    (⟨server.clearScenes, auth, wsUrl⟩ : TestControl Text).Since k where
  next := next
  active := by simp [ServerInner.activeScene, ServerInner.clearScenes]

theorem Since.setup {k : SceneRef} (next : k ≤ tc.server.nextRef) (req : SetupRequest) :
    (tc.handleSetup P req).1.Since k := by
  rcases handleSetup_cases P tc req with ⟨bundle, _, _, _, up, _⟩ | ⟨after, _⟩
  · refine ⟨up.next ▸ Nat.le_succ_of_le next, fun r active => ?_⟩
    rw [up.activeScene, Option.some.injEq] at active
    rwa [← active]
  · rw [after]
    exact cleared next ..

theorem Since.modifyScene {k : SceneRef} (since : tc.Since k) (r : SceneRef)
    (f : Scene Text → Scene Text) :
    ({ tc with server := tc.server.modifyScene r f } : TestControl Text).Since k :=
  ⟨since.next, since.active⟩

theorem Since.serve {k : SceneRef} (since : tc.Since k) (e : ControlEvent SceneRef Text) :
    (tc.serve P e).1.Since k := by
  cases e with
  | setup req => exact .setup since.next req
  | reset => exact .cleared since.next ..
  | state | health => exact since
  | emit pairs =>
      cases active : tc.lookUpActive "no scene is currently active" with
      | error response =>
          rw [TestControl.serve, handleEmit, active]
          exact since
      | ok r =>
          rw [TestControl.serve, (handleEmit_active pairs active).1]
          exact since.modifyScene ..
  | scene r call => exact since.modifyScene ..

/-- Scenes of earlier setups are off the stage, in every state after a setup. -/
theorem observeAll_of_leaves {k : SceneRef} (since : tc.Since k)
    {events : List (ControlEvent SceneRef Text)} (leave : ∀ e ∈ events, e.Leaves k) :
    tc.observeAll P events = events.map ControlEvent.offStage := by
  induction events generalizing tc with
  | nil => rfl
  | cons e events ih =>
      rw [observeAll, List.map_cons, ih (since.serve e) fun e' member =>
        leave e' (List.mem_cons_of_mem e member)]
      congr 1
      cases e with
      | scene r call =>
          have older : r < k := leave _ List.mem_cons_self
          have off : tc.server.activeScene ≠ some r := fun active =>
            absurd (since.active r active) (Nat.not_le_of_lt older)
          simp [observe, ControlEvent.offStage, off]
      | setup | reset | state | emit | health => rfl

theorem serveAll_setup (tc : TestControl Text) (req : SetupRequest)
    {events : List (ControlEvent SceneRef Text)}
    (leave : ∀ e ∈ events, e.Leaves tc.server.nextRef) :
    (tc.serveAll P (.setup req :: events)).1.Sound ∧
      ((tc.serveAll P (.setup req :: events)).1.stage,
        (tc.serveAll P (.setup req :: events)).2) = Stage.serveAll P tc.wsUrl none
          ((ControlEvent.setup req :: events).map ControlEvent.offStage) := by
  obtain ⟨sound, url, first⟩ := setup_refines (P := P) tc req none
  obtain ⟨sound', _, rest⟩ := serveAll_refines (P := P) sound events
  rw [observeAll_of_leaves (P := P) (.setup (Nat.le_refl _) req) leave, url] at rest
  refine ⟨sound', ?_⟩
  simp only [List.map_cons, ControlEvent.offStage, Stage.serveAll, serveAll, serve]
  rw [← first, ← rest]

/-- Whatever was requested before a setup, and whatever the scenes of earlier setups still
undergo after it, the requests from the setup on are answered as on any other server. -/
theorem setup_isolates (P : Platform Text) {tc tc' : TestControl Text}
    (url : tc'.wsUrl = tc.wsUrl) (req : SetupRequest)
    {events : List (ControlEvent SceneRef Text)}
    (leave : ∀ e ∈ events, e.Leaves tc.server.nextRef) :
    (tc.serveAll P (.setup req :: events)).2 =
      (tc'.serveAll P (.setup req :: events.filter ControlEvent.isRequest)).2 := by
  have requests : ∀ e ∈ events.filter ControlEvent.isRequest, e.Leaves tc'.server.nextRef := by
    intro e member
    obtain ⟨_, request⟩ := List.mem_filter.mp member
    cases e with
    | scene => cases request
    | setup | reset | state | emit | health => trivial
  have answers := congrArg Prod.snd (serveAll_setup (P := P) tc req leave).2
  have answers' := congrArg Prod.snd (serveAll_setup (P := P) tc' req requests).2
  rw [Stage.serveAll_filter, List.filter_cons_of_pos rfl] at answers
  rw [url] at answers'
  exact answers.trans answers'.symm

/-- An operator still writes to a scene of the server before the setup. -/
theorem setup_isolates_lamp :
    let late : SceneCall Value := .operate (.set "lamp" (.bool true))
    let old : TestControl Value := ⟨twoScenes.inner, ∅, ""⟩
    let new : TestControl Value := ⟨twoScenes.inner.clearScenes, ∅, ""⟩
    (old.serveAll valuePlatform [.setup lampSetup, .scene 0 late, .state]).2 =
      (new.serveAll valuePlatform [.setup lampSetup, .state]).2 :=
  setup_isolates valuePlatform rfl lampSetup (by simp [ControlEvent.Leaves, twoScenes])

/-! ## What a setup leaves behind -/

end TestControl

/-- The event is not one of the two that clear the scenes and the tokens. -/
def ControlEvent.Keeps {Place : Type} : ControlEvent Place Text → Prop
  | .setup _ | .reset => False
  | .state | .emit _ | .health | .scene .. => True

/-- The pairs that an emission writes; it is refused as a whole if one of them is illegal. -/
def ControlEvent.writes {Place : Type} : ControlEvent Place Text → List (String × Value)
  | .emit pairs => if ∀ pair ∈ pairs, LegalEntry pair then pairs else []
  | .setup _ | .reset | .state | .health | .scene .. => []

namespace Stage

variable {P : Platform Text} {wsUrl : String}

/-- Requests that neither set up nor reset write to the scene on stage. -/
theorem serveAll_keeps {Place : Type} (wsUrl : String) (scene : Scene Text)
    {events : List (ControlEvent Place Text)} (keep : ∀ e ∈ events, e.Keeps) :
    ∃ scene', (serveAll P wsUrl (some scene) (events.map ControlEvent.offStage)).1 = some scene' ∧
      scene'.id = scene.id ∧ scene'.version = scene.version ∧
      scene'.store = overwrite scene.store (events.flatMap ControlEvent.writes) := by
  induction events generalizing scene with
  | nil => exact ⟨scene, rfl, rfl, rfl, rfl⟩
  | cons e events ih =>
      have later : ∀ e ∈ events, e.Keeps := fun e' member =>
        keep e' (List.mem_cons_of_mem e member)
      cases e with
      | setup | reset => exact (keep _ List.mem_cons_self).elim
      | state | health | scene => exact ih scene later
      | emit pairs =>
          obtain ⟨scene', reached, id, version, store⟩ :=
            ih (scene.apply P.toTextLayer (.emit pairs none)) later
          obtain ⟨id', version', store'⟩ := scene.apply_emit (T := P.toTextLayer) pairs
          refine ⟨scene', reached, id.trans id', version.trans version', ?_⟩
          rw [store, store', List.flatMap_cons, overwrite_append]
          rfl

end Stage

namespace TestControl

variable {P : Platform Text} {tc : TestControl Text}

/-- After an accepted setup, requests and whatever the scenes of earlier setups undergo, the
state is that of the requested scene: its seeds, overwritten by the pairs of the accepted
emissions in their order. -/
theorem state_after_setup (P : Platform Text) (tc : TestControl Text) (req : SetupRequest)
    {bundle : SetupBundle} {rest : List SetupBundle} (bundles : req.bundles = bundle :: rest)
    (accepted : bundle.refusal = none) {events : List (ControlEvent SceneRef Text)}
    (leave : ∀ e ∈ events, e.Leaves tc.server.nextRef) (keep : ∀ e ∈ events, e.Keeps) :
    (tc.serveAll P (.setup req :: events)).1.handleState =
      .state bundle.effectiveId bundle.hash
        (overwrite ∅ (bundle.seeds req.initialState ++ events.flatMap ControlEvent.writes)) := by
  obtain ⟨sound, refines⟩ := serveAll_setup (P := P) tc req leave
  obtain ⟨scene', reached, id, version, store⟩ :=
    Stage.serveAll_keeps (P := P) tc.wsUrl (bundle.scene P req.initialState) keep
  obtain ⟨id', version', store'⟩ := bundle.scene_spec P req.initialState
  have stage : (tc.serveAll P (.setup req :: events)).1.stage = some scene' := by
    refine (congrArg Prod.fst refines).trans ?_
    simp only [List.map_cons, ControlEvent.offStage, Stage.serveAll, Stage.serve, bundles,
      accepted, reached]
  rw [sound.handleState, stage]
  simp only [id, version, store, id', version', store', overwrite_append]

/-- An accepted and a refused emission, and a write to an older scene. -/
theorem state_after_setup_lamp :
    let tc : TestControl Value := ⟨twoScenes.inner, ∅, ""⟩
    (tc.serveAll valuePlatform [.setup lampSetup, .emit [("lamp", .bool true)],
        .emit [("fan", .bool true), ("lamp", .object [])],
        .scene 0 (.operate (.set "lamp" (.bool false)))]).1.handleState =
      .state "lamps" "sha256:00" (overwrite ∅ [("lamp", .bool false), ("lamp", .bool true)]) :=
  state_after_setup valuePlatform _ lampSetup rfl (by decide)
    (by simp [ControlEvent.Leaves, twoScenes]) (by simp [ControlEvent.Keeps])

/-! ## Tokens after a run -/

theorem auth_serve {e : ControlEvent SceneRef Text} (keep : e.Keeps) :
    (tc.serve P e).1.auth = tc.auth := by
  cases e with
  | setup | reset => cases keep
  | state | health | scene => rfl
  | emit pairs =>
      cases active : tc.lookUpActive "no scene is currently active" with
      | error response => rw [serve, handleEmit, active]
      | ok r => rw [serve, (handleEmit_active pairs active).1]

theorem auth_serveAll {events : List (ControlEvent SceneRef Text)}
    (keep : ∀ e ∈ events, e.Keeps) : (tc.serveAll P events).1.auth = tc.auth := by
  induction events generalizing tc with
  | nil => rfl
  | cons e events ih =>
      exact (ih fun e' member => keep e' (List.mem_cons_of_mem e member)).trans
        (auth_serve (keep e List.mem_cons_self))

theorem serveAll_append (before after : List (ControlEvent SceneRef Text)) :
    (tc.serveAll P (before ++ after)).1 = ((tc.serveAll P before).1.serveAll P after).1 := by
  induction before generalizing tc with
  | nil => rfl
  | cons e before ih => exact ih

/-- A setup installs its own tokens, whether it is refused or not. -/
theorem auth_handleSetup (req : SetupRequest) :
    (tc.handleSetup P req).1.auth = installTokens ∅ req.tokens := by
  rcases handleSetup_cases P tc req with ⟨bundle, _, _, _, up, _⟩ | ⟨after, _⟩
  · exact up.auth
  · rw [after]

/-- After a setup a token is accepted as the last of the placeholders, in their order, that the
request maps to it; after a reset none is. -/
theorem authenticate_after (P : Platform Text) (tc : TestControl Text)
    (before after : List (ControlEvent SceneRef Text)) (keep : ∀ e ∈ after, e.Keeps) :
    (∀ req token identity,
      (tc.serveAll P (before ++ .setup req :: after)).1.auth.authenticate token = .ok identity ↔
        ∃ role, roleForPlaceholder identity.subject = some role ∧
          identity = { subject := identity.subject, role, paths := none } ∧
          req.tokens[identity.subject]? = some token ∧
          ∀ other, (roleForPlaceholder other).isSome → req.tokens[other]? = some token →
            compare identity.subject other ≠ .lt) ∧
    ∀ token, (tc.serveAll P (before ++ .reset :: after)).1.auth.authenticate token =
      .error .denied := by
  constructor
  · intro req token identity
    rw [serveAll_append, serveAll, auth_serveAll keep, serve, auth_handleSetup]
    exact authenticate_installTokens ..
  · intro token
    rw [serveAll_append, serveAll, auth_serveAll keep, serve, handleReset,
      MapAuthenticator.authenticate, Std.ExtTreeMap.getElem?_empty]
    rfl

theorem authenticate_after_lamp :
    let tc : TestControl Value := ⟨twoScenes.inner, ∅, ""⟩
    let auth := (tc.serveAll valuePlatform [.reset, .setup lampSetup, .state]).1.auth
    auth.authenticate "op" = .ok { subject := "$TOKEN_OPERATOR", role := .operator } ∧
      auth.authenticate "vw" = .error .denied := by
  refine ⟨?_, by decide⟩
  refine ((authenticate_after valuePlatform _ [.reset] [.state] (by simp [ControlEvent.Keeps])).1
    lampSetup "op" _).mpr ⟨.operator, rfl, rfl, by decide, fun other known mapped => ?_⟩
  simp only [lampSetup, Std.ExtTreeMap.getElem?_insert, Std.ExtTreeMap.getElem?_empty] at mapped
  split at mapped
  · next same =>
    rw [← Std.LawfulEqOrd.eq_of_compare same]
    decide
  · cases mapped

end TestControl
end Lumencast.Server
