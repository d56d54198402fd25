import Lumencast.Conformance.Control
import Lumencast.Conformance.Placeholders
import Lumencast.Conformance.StructuralMatch

/-!
# Scenarios

A scenario is a list of steps with the bundles and the initial state that it
starts from. The setup of a scenario that declares no bundles is read off the
frames that it expects: the first scene identifier and hash, and the state of the
first snapshot, without the sentinels.

`setup_puts_up` says what the control plane of this repository makes of a setup.
-/

namespace Lumencast.Conformance

open Foundation Protocol
open Server (Framework TestControl)

variable {Text : Type}

inductive Tag where
  | required
  | recommended
  | extended
  deriving DecidableEq, Repr

inductive Target where
  | server
  | runtime
  | any
  deriving DecidableEq, Repr

structure InlineBundle where
  id : String
  inlined : Value
  deriving DecidableEq

structure ClientAction where
  action : String
  fields : State
  deriving DecidableEq

inductive Scenario.Step where
  | clientSends (frame : Value)
  | serverSends (frame : Value)
  | expectRuntimeState (state : State)
  | expectServerState (state : State)
  | expectNoFrameFor (durationMs : Nat)
  | expectClientAction (action : ClientAction)
  | serverEmits (frame : Value)
  | unsupported (kind : String)
  deriving DecidableEq

structure Scenario where
  name : String
  tag : Tag := .required
  target : Target := .any
  bundles : List InlineBundle := []
  initialState : State := ∅
  steps : List Scenario.Step

/-! ## The setup of a scenario -/

/-- A member of an object. -/
def member (v : Value) (k : String) : Option Value := v.child (.key k)

def hashInlineBundle (P : Platform Text) (inlined : Value) : String :=
  hashToSceneVersion P (P.toText inlined)

namespace Scenario

variable (P : Platform Text) (scenario : Scenario)

def bundleHashes : Std.ExtTreeMap String String :=
  overwrite ∅ (scenario.bundles.map fun b => (b.id, hashInlineBundle P b.inlined))

/-- A string of a frame that stands for itself. -/
def literal (frame : Value) (k sentinel : String) : String :=
  (((member frame k).bind Value.asStr).filter (· ≠ sentinel)).getD ""

/-- The loop of `first_scene_id_and_hash`, with what it has found so far. -/
def findIdAndHash : List Step → String → String → String × String
  | .serverSends frame :: steps, id, hash =>
      let id := if id.isEmpty then literal frame "scene_id" "$ANY" else id
      let hash := if hash.isEmpty then literal frame "scene_version" "$ANY_HASH" else hash
      if !id.isEmpty && !hash.isEmpty then (id, hash) else findIdAndHash steps id hash
  | _ :: steps, id, hash => findIdAndHash steps id hash
  | [], id, hash => (id, hash)

def firstSceneIdAndHash : String × String := findIdAndHash scenario.steps "" ""

/-- The state of a snapshot that a step expects. -/
def snapshotState? : Step → Option (List (String × Value))
  | .serverSends frame =>
      if (member frame "type").bind Value.asStr = some "snapshot" then
        (member frame "state").bind Value.asObject
      else none
  | _ => none

def isSentinel (v : Value) : Bool := v.asStr.any fun s => decide (IsSentinel s)

def extractInitialState : State :=
  overwrite ∅ (((scenario.steps.findSome? snapshotState?).getD []).filter fun f => !isSentinel f.2)

/-- A declared bundle is set up under the scene identifier of its body. -/
def declaredBundle (hashes : Std.ExtTreeMap String String) (b : InlineBundle) : SetupBundle where
  id := ((member b.inlined "scene_id").bind Value.asStr).getD b.id
  hash := hashes[b.id]?.getD "sha256:"
  inlined := some b.inlined

/-- The inputs that a synthetic bundle declares. -/
def syntheticInputs : List Value :=
  ((scenario.extractInitialState.toList.map Prod.fst).filter fun path =>
    (stripPrefix "__inputs.".toList path.toList).isSome).map fun path =>
      objectOf [("path", .string path)]

def syntheticBundle : SetupBundle :=
  let (id, hash) := scenario.firstSceneIdAndHash
  { id := if id.isEmpty then scenario.name else id
    hash := if hash.isEmpty then placeholderHash else hash
    inlined := some (.object (if scenario.syntheticInputs.isEmpty then []
      else [("operator_inputs", .array scenario.syntheticInputs)])) }

def buildSetupBundles (hashes : Std.ExtTreeMap String String) : List SetupBundle :=
  if scenario.bundles.isEmpty then [scenario.syntheticBundle]
  else scenario.bundles.map (declaredBundle hashes)

def setupRequest (tokens : Std.ExtTreeMap String String) : SetupRequest where
  scenario := scenario.name
  tokens := tokens
  bundles := scenario.buildSetupBundles (scenario.bundleHashes P)
  initialState :=
    if scenario.initialState.isEmpty then scenario.extractInitialState else scenario.initialState

/-- The bundle that a control plane puts up. -/
def bundle : SetupBundle :=
  match scenario.bundles with
  | [] => scenario.syntheticBundle
  | b :: _ => declaredBundle (scenario.bundleHashes P) b

/-- The entries that the bundle brings itself. -/
def inlineDefaults : List (String × Value) :=
  (((scenario.bundle P).inlined.bind (member · "defaults")).bind Value.asObject).getD []

theorem buildSetupBundles_eq : ∃ rest,
    scenario.buildSetupBundles (scenario.bundleHashes P) = scenario.bundle P :: rest := by
  unfold buildSetupBundles bundle
  cases scenario.bundles with
  | nil => exact ⟨[], rfl⟩
  | cons b rest => exact ⟨_, rfl⟩

/-- A body that is `null` has no fields to lose. -/
theorem field_received (bundle : SetupBundle) (k : String) :
    (received bundle).field k = bundle.inlined.bind (member · k) := by
  obtain ⟨id, hash, inlined⟩ := bundle
  cases inlined with
  | none => rfl
  | some v => cases v <;> rfl

theorem effectiveId_received (bundle : SetupBundle) : (received bundle).effectiveId =
    ((bundle.inlined.bind (member · "scene_id")).bind Value.asStr).getD bundle.id := by
  rw [Server.SetupBundle.effectiveId, field_received]
  rfl

/-- The control plane does not rename the scene of a scenario. -/
theorem effectiveId_bundle :
    (received (scenario.bundle P)).effectiveId = (scenario.bundle P).id := by
  rw [effectiveId_received, bundle]
  cases scenario.bundles with
  | nil =>
      have unnamed : ((scenario.syntheticBundle.inlined.bind (member · "scene_id")).bind
          Value.asStr) = none := by
        unfold syntheticBundle
        by_cases none_declared : scenario.syntheticInputs.isEmpty <;>
          simp [none_declared, member, Value.child]
      rw [unnamed]
      rfl
  | cons b rest =>
      simp only [declaredBundle, Option.bind_some]
      cases (member b.inlined "scene_id").bind Value.asStr <;> rfl

theorem refusal_eq_none {bundle : SetupBundle} : (received bundle).refusal = none ↔
    bundle.id ≠ "" ∧ (stripPrefix "sha256:".toList bundle.hash.toList).isSome := by
  unfold received Server.SetupBundle.refusal
  by_cases empty : bundle.id = "" <;>
    cases stripPrefix "sha256:".toList bundle.hash.toList <;> simp [empty]

/-! ## Setting a scenario up -/

/-- A scenario is set up exactly when its bundle has a name and a hash. Then its scene is
alone on stage, under that name and hash, with the initial state of the scenario, or with the
defaults of the bundle if the initial state is empty. Both sides read back what they are
sent. -/
theorem setup_puts_up (F : Framework Text) (tc : TestControl Text)
    (tokens : Std.ExtTreeMap String String)
    (asked : P.ReadsBack (scenario.setupRequest P tokens).toValue)
    (told : ∀ v ∈ (Server.ControlResponse.setup tc.wsUrl (scenario.bundle P).id
      (scenario.bundle P).hash).content, P.ReadsBack v) :
    let setUp := Effect.exec
      (ControlClient.setup P.toTextLayer (inProcess P F) (scenario.setupRequest P tokens)) tc
    let b := scenario.bundle P
    let state := (scenario.setupRequest P tokens).initialState
    ((∃ response, setUp.1 = .ok response) ↔
        b.id ≠ "" ∧ (stripPrefix "sha256:".toList b.hash.toList).isSome) ∧
      ∀ response, setUp.1 = .ok response →
        response = ⟨tc.wsUrl, b.id, b.hash⟩ ∧
        ∃ scene, setUp.2.stage = some scene ∧ scene.id = b.id ∧ scene.version = b.hash ∧
          scene.store = if state = ∅ then overwrite ∅ (scenario.inlineDefaults P) else state := by
  intro setUp b state
  obtain ⟨rest, bundles⟩ := scenario.buildSetupBundles_eq P
  have sent : (scenario.setupRequest P tokens).received.bundles =
      received b :: rest.map received := by
    rw [SetupRequest.received, setupRequest, bundles, List.map_cons]
  rcases TestControl.handleSetup_cases P tc (scenario.setupRequest P tokens).received with
    ⟨bundle, rest, first, accepted, up, response⟩ | ⟨_, ⟨none_declared, _⟩ |
      ⟨bundle, rest, first, refused⟩⟩
  · rw [sent, List.cons.injEq] at first
    obtain ⟨rfl, _⟩ := first
    have done : setUp = (.ok ⟨tc.wsUrl, b.id, b.hash⟩,
        (tc.handleSetup P (scenario.setupRequest P tokens).received).1) := by
      rw [← scenario.effectiveId_bundle P] at told ⊢
      exact exec_setup_ok asked response told
    obtain ⟨id, version, store⟩ :=
      (received b).scene_spec P (scenario.setupRequest P tokens).received.initialState
    refine ⟨⟨fun _ => refusal_eq_none.mp accepted, fun _ => ⟨_, congrArg Prod.fst done⟩⟩, ?_⟩
    intro response' given
    rw [done] at given ⊢
    refine ⟨(Except.ok.inj given).symm, _, up.stage, id.trans (scenario.effectiveId_bundle P),
      version, ?_⟩
    have empty_iff : (scenario.setupRequest P tokens).received.initialState.isEmpty = true ↔
        state = ∅ := Std.ExtTreeMap.isEmpty_iff
    rw [store, Server.SetupBundle.seeds, field_received]
    by_cases empty : state = ∅
    · rw [if_pos (empty_iff.mpr empty), if_pos empty]
      rfl
    · rw [if_neg (mt empty_iff.mp empty), if_neg empty]
      exact overwrite_toList state
  · rw [sent] at none_declared
    cases none_declared
  · rw [sent, List.cons.injEq] at first
    obtain ⟨rfl, _⟩ := first
    obtain ⟨code, detail, response⟩ := refusal_problem refused
    have failed : ∀ response, setUp.1 ≠ .ok response := by
      intro response' given
      cases (congrArg Prod.fst (exec_setup_problem asked response)).symm.trans given
    refine ⟨⟨fun accepted => ?_, fun formed => ?_⟩, fun _ given => absurd given (failed _)⟩
    · obtain ⟨_, given⟩ := accepted
      exact absurd given (failed _)
    · rw [refusal_eq_none.mpr formed] at refused
      cases refused

/-- A scenario that expects one snapshot, and declares nothing. -/
def oneSnapshot : Scenario where
  name := "lamp"
  steps := [.serverSends (objectOf [("type", .string "snapshot"), ("scene_id", .string "lamps"),
    ("scene_version", .string "$ANY_HASH"),
    ("state", objectOf [("__inputs.lamp", .bool false), ("title", .string "$ANY")])])]

theorem setup_puts_up_oneSnapshot :
    let plain : Framework Value := ⟨fun _ => ⟨404, none⟩, fun _ => ⟨422, none⟩⟩
    let setUp := Effect.exec (ControlClient.setup valuePlatform.toTextLayer
      (inProcess valuePlatform plain) (oneSnapshot.setupRequest valuePlatform ∅))
      ⟨Server.twoScenes.inner, ∅, "ws://lamp"⟩
    setUp.1 = .ok ⟨"ws://lamp", "lamps", placeholderHash⟩ ∧
      setUp.2.stage.map (·.store) = some ((∅ : State).insert "__inputs.lamp" (.bool false)) := by
  intro plain setUp
  obtain ⟨accepted, puts⟩ := setup_puts_up valuePlatform oneSnapshot plain
    ⟨Server.twoScenes.inner, ∅, "ws://lamp"⟩ ∅ rfl fun _ _ => rfl
  obtain ⟨response, given⟩ := accepted.mpr (by decide)
  obtain ⟨same, scene, stage, _, _, store⟩ := puts response given
  refine ⟨given.trans (congrArg Except.ok (same.trans (by decide))), ?_⟩
  rw [stage, Option.map_some, store, if_neg (by decide)]
  decide

end Scenario
end Lumencast.Conformance
