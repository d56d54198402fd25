import Mathlib.Logic.Function.Basic
import Lumencast.Server.SceneCell

/-!
# The scene registry

`ServerInner` is the state that handles, adapters and connections share: the
scene objects, the map from identifiers to registered scenes, the active-scene
pointer and the server-wide event channel. A scene stays in the heap after it is
cleared from the registry, because connections and adapters keep handles to it.

A call of the server handle takes several locked steps. `ServerCall` is such a
call in progress, and `ServerCall.finish` performs it without interruption.
-/

namespace Lumencast.Server

open Foundation Protocol

variable {Text : Type}

/-- A handle to a scene object. -/
abbrev SceneRef := Nat

/-- Server-wide events, sent to every connection. -/
inductive ServerEvent where
  | sceneSwap (sceneId : SceneId)
  deriving DecidableEq, Repr

/-- Capacity of the server-wide event channel. -/
def eventCapacity : Nat := 64

structure ServerInner (Text : Type) where
  heap : SceneRef → SceneCell Text
  nextRef : SceneRef
  scenes : Std.ExtTreeMap String SceneRef
  active : Option SceneId
  events : Broadcast ServerEvent

namespace ServerInner

variable (inner : ServerInner Text)

/-- Look a registered scene up. -/
def scene (id : SceneId) : Option SceneRef := inner.scenes[id]?

/-- The lookup depends on the map alone. -/
theorem scene_congr {inner inner' : ServerInner Text} (scenes : inner'.scenes = inner.scenes) :
    inner'.scene = inner.scene := by
  funext id
  rw [scene, scene, scenes]

def setCell (r : SceneRef) (cell : SceneCell Text) : ServerInner Text :=
  { inner with heap := Function.update inner.heap r cell }

/-- One locked step on a scene object. -/
def onScene (r : SceneRef) (a : SceneAction) : Option (ServerInner Text) :=
  ((inner.heap r).step a).map (inner.setCell r)

/-- One uninterrupted operation on a scene object. -/
def modifyScene (r : SceneRef) (f : Scene Text → Scene Text) : ServerInner Text :=
  inner.setCell r { inner.heap r with scene := f (inner.heap r).scene }

/-- Create a scene object and register it. -/
def insert (id : SceneId) (scene : Scene Text) : ServerInner Text :=
  { inner.setCell inner.nextRef { scene } with
    nextRef := inner.nextRef + 1
    scenes := inner.scenes.insert id inner.nextRef }

/-- Make a scene active unless one is. -/
def activate (id : SceneId) : ServerInner Text :=
  { inner with active := inner.active.or (some id) }

end ServerInner

/-- What a scene is registered from: `new_scene_with_version`, or `register_bundle`. -/
inductive Registration where
  | plain (id : SceneId) (version : SceneVersion)
  | bundle (b : Bundle)
  deriving DecidableEq

namespace Registration

def id : Registration → SceneId
  | plain id _ => id
  | bundle b => b.sceneId

/-- The scene object before it is shared. -/
def scene (P : Platform Text) : Registration → Scene Text
  | plain id version => Scene.new id version
  | bundle b =>
      let b := b.withComputedVersion P
      ((Scene.new b.sceneId b.sceneVersion).seed b.defaults.toList).attachBundleBytes
        (b.toCanonicalBytes P)

/-- Seeding bypasses the counter, the ring and the channel. -/
theorem scene_fresh (P : Platform Text) (reg : Registration) :
    (reg.scene P).seq = 1 ∧ (reg.scene P).tx = Broadcast.new broadcastCapacity ∧
      (reg.scene P).replay = ReplayBuffer.new defaultReplayBufferSize := by
  cases reg <;> exact ⟨rfl, rfl, rfl⟩

end Registration

/-- A call of the server handle; the constructor names its next locked step. -/
inductive ServerCall where
  /-- `new_scene_with_version` and `register_bundle`: refuse a registered identifier. -/
  | register (reg : Registration)
  | insert (reg : Registration)
  | activate (id : SceneId) (r : SceneRef)
  /-- `set_active_scene`: refuse an unknown identifier. -/
  | setActiveScene (id : SceneId)
  | writeActive (id : SceneId)
  | sendSwap (id : SceneId)
  | clearScenes
  | clearActive
  deriving DecidableEq

namespace ServerCall

/-- What a locked step leads to: the rest of the call, or its result. -/
inductive Progress where
  | next (call : ServerCall)
  | returned (result : Except ServerError (Option SceneRef))

/-- The rest of the call. -/
def Progress.rest : Progress → Option ServerCall
  | next call => some call
  | returned _ => none

def step (P : Platform Text) (inner : ServerInner Text) :
    ServerCall → ServerInner Text × Progress
  | register reg =>
      if (inner.scene reg.id).isSome then (inner, .returned (.error (.duplicateScene reg.id)))
      else (inner, .next (.insert reg))
  | insert reg => (inner.insert reg.id (reg.scene P), .next (.activate reg.id inner.nextRef))
  | activate id r => (inner.activate id, .returned (.ok (some r)))
  | setActiveScene id =>
      if (inner.scene id).isSome then (inner, .next (.writeActive id))
      else (inner, .returned (.error (.unknownScene id)))
  | writeActive id => ({ inner with active := some id }, .next (.sendSwap id))
  | sendSwap id =>
      ({ inner with events := inner.events.send (.sceneSwap id) }, .returned (.ok none))
  | clearScenes => ({ inner with scenes := ∅ }, .next .clearActive)
  | clearActive => ({ inner with active := none }, .returned (.ok none))

/-- Perform a call without interruption. -/
def finish (P : Platform Text) (inner : ServerInner Text) : Nat → ServerCall →
    ServerInner Text × Except ServerError (Option SceneRef)
  | 0, _ => (inner, .ok none)
  | fuel + 1, call =>
      match call.step P inner with
      | (inner, .next call) => finish P inner fuel call
      | (inner, .returned result) => (inner, result)

/-- A registration refuses a registered identifier, or creates one scene object. -/
theorem finish_register (P : Platform Text) (inner : ServerInner Text) (reg : Registration) :
    finish P inner 3 (.register reg) =
      if (inner.scene reg.id).isSome then (inner, .error (.duplicateScene reg.id))
      else ((inner.insert reg.id (reg.scene P)).activate reg.id, .ok (some inner.nextRef)) := by
  by_cases registered : (inner.scene reg.id).isSome <;> simp [finish, step, registered]

/-- A check leaves the registry as it is. -/
theorem step_check (P : Platform Text) (inner : ServerInner Text) :
    (∀ reg, ((register reg).step P inner).1 = inner) ∧
      ∀ id, ((setActiveScene id).step P inner).1 = inner := by
  constructor <;>
  · intro
    rw [step]
    split <;> rfl

/-- The heap after a locked step differs at most at the reference that was free. -/
theorem step_heap (P : Platform Text) (inner : ServerInner Text) (call : ServerCall) :
    ((call.step P inner).1.heap = inner.heap ∧ (call.step P inner).1.nextRef = inner.nextRef) ∨
      ∃ reg : Registration, (call.step P inner).1.heap =
          Function.update inner.heap inner.nextRef { scene := reg.scene P } ∧
        (call.step P inner).1.nextRef = inner.nextRef + 1 := by
  cases call with
  | insert reg => exact .inr ⟨reg, rfl, rfl⟩
  | register reg =>
      rw [step]
      split <;> exact .inl ⟨rfl, rfl⟩
  | setActiveScene id =>
      rw [step]
      split <;> exact .inl ⟨rfl, rfl⟩
  | activate | writeActive | sendSwap | clearScenes | clearActive => exact .inl ⟨rfl, rfl⟩

/-- A registered reference was registered before, or has just been created. -/
theorem step_scenes {P : Platform Text} {inner : ServerInner Text} {call : ServerCall}
    {id : SceneId} {r : SceneRef} (h : (call.step P inner).1.scenes[id]? = some r) :
    inner.scenes[id]? = some r ∨ (r = inner.nextRef ∧
      (call.step P inner).1.nextRef = inner.nextRef + 1) := by
  cases call with
  | insert reg =>
      simp only [step, ServerInner.insert, Std.ExtTreeMap.getElem?_insert] at h
      split at h
      · exact .inr ⟨(Option.some.inj h).symm, rfl⟩
      · exact .inl h
  | register reg =>
      rw [step] at h
      split at h <;> exact .inl h
  | setActiveScene id =>
      rw [step] at h
      split at h <;> exact .inl h
  | clearScenes => simp [step] at h
  | activate | writeActive | sendSwap | clearActive => exact .inl h

end ServerCall
end Lumencast.Server
