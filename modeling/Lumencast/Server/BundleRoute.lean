import Lumencast.Protocol.Canonical
import Lumencast.Server.World

/-!
# Serving bundles

The route serves the bytes that were attached to a scene when its bundle was
registered, under the address that names its version. A scene keeps its version and
its bytes for as long as it exists, so what holds of them at the registration holds
of every later response.
-/

namespace Lumencast.Server

open Foundation Protocol

variable {Text : Type}

/-- The answers of the bundle route. -/
inductive BundleResponse (Text : Type) where
  | notFound
  | ok (contentType cacheControl : String) (body : Text)
  deriving DecidableEq

/-- A bundle with the headers that let it be cached forever. -/
def BundleResponse.bundle (body : Text) : BundleResponse Text :=
  .ok "application/json; charset=utf-8" "public, max-age=31536000, immutable" body

/-- `GET /scenes/:scene_id/:version_hex`. -/
def sceneBundleRoute (inner : ServerInner Text) (sceneId versionHex : String) :
    BundleResponse Text :=
  match inner.scene sceneId with
  | none => .notFound
  | some r =>
      let scene := (inner.heap r).scene
      if scene.version ≠ "sha256:" ++ versionHex then .notFound
      else
        match scene.bundleBytes with
        | none => .notFound
        | some bytes => .bundle bytes

/-- What the route reads of a scene. -/
def Scene.served (s : Scene Text) : SceneId × SceneVersion × Option Text :=
  (s.id, s.version, s.bundleBytes)

/-- A scene action leaves what is served. -/
theorem SceneCell.served_step {cell cell' : SceneCell Text} {a : SceneAction}
    (h : cell.step a = some cell') : cell'.scene.served = cell.scene.served := by
  cases a with
  | emit caller pairs cause =>
      obtain ⟨_, rfl | ⟨patches, _, rfl⟩⟩ := step_emit h <;> rfl
  | progress caller =>
      obtain ⟨⟨patches, cause, stage⟩, _, rfl⟩ := step_progress h
      cases stage <;> rfl
  | change | reject | withOperatorInputs =>
      cases h
      rfl

namespace World

variable {P : Platform Text} {w w' : World Text}

/-- What is served of the scene `r` is settled. -/
def Serves (r : SceneRef) (served : SceneId × SceneVersion × Option Text) (w : World Text) : Prop :=
  r < w.inner.nextRef ∧ (w.inner.heap r).scene.served = served

theorem Serves.step {r : SceneRef} {served : SceneId × SceneVersion × Option Text}
    {a : Action Text} (serves : Serves r served w) (h : w.step P a = some w') :
    Serves r served w' := by
  obtain ⟨exists_, settled⟩ := serves
  refine ⟨Nat.lt_of_lt_of_le exists_ (step_refs h).1, ?_⟩
  rcases scene_cases h r with same | ⟨rfl, _⟩ | ⟨sa, stepped, _⟩
  · rw [same]
    exact settled
  · exact absurd exists_ (Nat.lt_irrefl _)
  · rw [SceneCell.served_step stepped]
    exact settled

end World

/-- The scene that a registration inserts serves what the registration made. -/
theorem serves_of_insert {P : Platform Text} {w w' : World Text} {n : Nat} {reg : Registration}
    (task : w.tasks n = some (.insert reg)) (h : w.step P (.serve n) = some w') :
    World.Serves w.inner.nextRef (reg.scene P).served w' := by
  simp only [World.step, task, Option.map_some, Option.some.injEq] at h
  subst h
  refine ⟨Nat.lt_succ_self _, ?_⟩
  show (Function.update w.inner.heap w.inner.nextRef _ w.inner.nextRef).scene.served = _
  rw [Function.update_self]

/-- The bytes of a registered bundle are those of the bundle with its computed version. -/
theorem served_of_bundle (P : Platform Text) (b : Bundle) :
    ((Registration.bundle b).scene P).served =
      (b.sceneId, b.computeContentHash P, some ((b.withComputedVersion P).toCanonicalBytes P)) :=
  rfl

/-- The route answers with the bytes exactly under the address of the version. -/
theorem sceneBundleRoute_eq_bundle_iff {inner : ServerInner Text} {sceneId versionHex : String}
    {r : SceneRef} {bytes : Text} (registered : inner.scene sceneId = some r)
    (attached : (inner.heap r).scene.bundleBytes = some bytes) :
    sceneBundleRoute inner sceneId versionHex = .bundle bytes ↔
      "sha256:" ++ versionHex = (inner.heap r).scene.version := by
  simp only [sceneBundleRoute, registered, attached]
  by_cases same : (inner.heap r).scene.version = "sha256:" ++ versionHex
  · simp [same]
  · simp [same, Ne.symm same, BundleResponse.bundle]

/-- For every parsed bundle that is registered and read back, and every run from then on:
what the scene serves verifies itself, and the route serves it under its own address only. -/
theorem served_bundle_verifies {P : Platform Text} {text : Text} {b : Bundle}
    (parsed : Bundle.parse P text = .ok b) (back : P.ReadsBack (b.withComputedVersion P).toValue)
    {start stop : World Text} {n : Nat} {schedule : List (Action Text)}
    (registering : start.tasks n = some (.insert (.bundle b)))
    (reach : run (World.step P) start (.serve n :: schedule) = some stop) :
    let r := start.inner.nextRef
    let s := (stop.inner.heap r).scene
    let served : Bundle := { b with sceneVersion := s.version }
    ∃ bytes, s.bundleBytes = some bytes ∧
      Bundle.parse P bytes = .ok served ∧
      served.isSelfConsistent P = true ∧
      served.toCanonicalBytes P = bytes ∧
      (∀ version, ({ b with sceneVersion := version } : Bundle).computeContentHash P =
        b.computeContentHash P) ∧
      (stop.inner.scene b.sceneId = some r → ∀ versionHex,
        sceneBundleRoute stop.inner b.sceneId versionHex = .bundle bytes ↔
          "sha256:" ++ versionHex = s.version) := by
  intro r s served
  obtain ⟨inserted, first, rest⟩ := run_cons_eq_some.mp reach
  have serves : World.Serves r ((Registration.bundle b).scene P).served stop :=
    run_invariant (fun _ _ _ serves h => World.Serves.step serves h)
      (serves_of_insert registering first) rest
  have settled : s.served = _ := serves.2.trans (served_of_bundle P b)
  have version : s.version = b.computeContentHash P := congrArg (·.2.1) settled
  have attached : s.bundleBytes = some ((b.withComputedVersion P).toCanonicalBytes P) :=
    congrArg (·.2.2) settled
  have same : b.withComputedVersion P = served := by
    rw [Bundle.withComputedVersion, ← version]
  rw [same] at attached back
  refine ⟨served.toCanonicalBytes P, attached, Bundle.parse_toCanonicalBytes parsed _ back, ?_,
    rfl, b.computeContentHash_setVersion P, fun registered versionHex =>
      sceneBundleRoute_eq_bundle_iff registered attached⟩
  rw [Bundle.isSelfConsistent, b.computeContentHash_setVersion P]
  simp [served, version]

/-- A bundle with a default and an empty list of inputs. -/
private def lampBundle : Value :=
  objectOf [("lsml", .string "1.0"), ("scene_id", .string "studio"),
    ("scene_version", .string "sha256:declared"), ("layout", .object [("kind", .string "text")]),
    ("operator_inputs", .array []), ("defaults", .object [("lamp", .bool true)])]

/-- An empty server that is about to insert the scene of a bundle. -/
private def registering (b : Bundle) : World Value where
  inner :=
    { heap := fun _ => { scene := Scene.new "" "" }
      nextRef := 0
      scenes := ∅
      active := none
      events := Broadcast.new eventCapacity }
  tasks := fun _ => some (.insert (.bundle b))
  conns := fun _ => { rate := RateBucket.new 0 0 }

theorem served_bundle_verifies_lampBundle :
    ∃ b stop bytes, Bundle.parse valuePlatform lampBundle = .ok b ∧
      run (World.step valuePlatform) (registering b) [.serve 0] = some stop ∧
      Bundle.parse valuePlatform bytes =
        .ok { b with sceneVersion := (stop.inner.heap 0).scene.version } ∧
      bytes ≠ lampBundle := by
  have parses : (Bundle.parse valuePlatform lampBundle).toOption.any (fun b =>
      (b.withComputedVersion valuePlatform).toCanonicalBytes valuePlatform ≠ lampBundle) =
        true := by
    decide
  obtain ⟨b, parsed, rewritten⟩ := exists_ok_of_any parses
  have reach : run (World.step valuePlatform) (registering b) [.serve 0] = some _ := rfl
  obtain ⟨bytes, attached, reparsed, _⟩ :=
    served_bundle_verifies (P := valuePlatform) parsed rfl rfl reach
  refine ⟨b, _, bytes, parsed, reach, reparsed, ?_⟩
  have same : some ((b.withComputedVersion valuePlatform).toCanonicalBytes valuePlatform) =
      some bytes := attached
  exact Option.some.inj same ▸ rewritten

end Lumencast.Server
