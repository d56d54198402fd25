import Lumencast.Server.World

/-!
# The registry under concurrent calls

Every call of the server handle checks the registry at one locked step and acts on
it at later ones. A `Ledger` is a server together with the registrations that have
returned since the registry was last cleared. As long as what a call has checked
still holds when the call acts on it, a returned scene is the one that the registry
has, and an idle server's active scene is registered.
-/

namespace Lumencast.Server

open Foundation Protocol

variable {Text : Type}

/-- A server with the registrations that have returned since the last clear. -/
structure Ledger (Text : Type) where
  world : World Text
  returned : List (SceneId × SceneRef) := []

namespace Ledger

/-- The returned registrations after a step. -/
def record (l : Ledger Text) : Action Text → List (SceneId × SceneRef)
  | .serve n =>
      match l.world.tasks n with
      | some .clearScenes => []
      | some (.activate id r) => l.returned ++ [(id, r)]
      | some (.register _) | some (.insert _) | some (.setActiveScene _) | some (.writeActive _)
      | some (.sendSwap _) | some .clearActive | none => l.returned
  | .scene .. | .request .. | .receive .. | .handler .. | .hangup _ => l.returned

def step (P : Platform Text) (l : Ledger Text) (a : Action Text) : Option (Ledger Text) :=
  (l.world.step P a).map fun world => { world, returned := l.record a }

/-- The record does not influence the server. -/
theorem run_world {P : Platform Text} {l l' : Ledger Text} {schedule : List (Action Text)}
    (reach : run (Ledger.step P) l schedule = some l') :
    run (World.step P) l.world schedule = some l'.world := by
  induction schedule generalizing l with
  | nil =>
      cases reach
      rfl
  | cons a schedule ih =>
      obtain ⟨m, first, rest⟩ := run_cons_eq_some.mp reach
      obtain ⟨w, stepped, rfl⟩ := Option.map_eq_some_iff.mp first
      exact run_cons_eq_some.mpr ⟨w, stepped, ih rest⟩

end Ledger

/-- Only an insertion leads to an activation. -/
theorem ServerCall.insert_of_rest {P : Platform Text} {inner : ServerInner Text}
    {call : ServerCall} {id : SceneId} {r : SceneRef}
    (h : (call.step P inner).2.rest = some (.activate id r)) : ∃ reg, call = .insert reg := by
  cases call with
  | insert reg => exact ⟨reg, rfl⟩
  | register reg | setActiveScene id =>
      rw [ServerCall.step] at h
      split at h <;> cases h
  | activate | writeActive | sendSwap | clearScenes | clearActive => cases h

namespace World

/-- What a call has checked still holds when the call acts on it: an identifier is free
when it is registered, no registration is between its two writes when the registry is
cleared, and the scene that is made active is registered or a clear is about to reset
the pointer. -/
def ChecksHold (w : World Text) : Action Text → Prop
  | .serve n =>
      match w.tasks n with
      | some (.insert reg) => w.inner.scene reg.id = none
      | some .clearScenes => ∀ m id r, w.tasks m ≠ some (.activate id r)
      | some (.writeActive id) => (w.inner.scene id).isSome ∨ ∃ m, w.tasks m = some .clearActive
      | _ => True
  | _ => True

end World

namespace Ledger

variable {P : Platform Text} {l l' : Ledger Text} {a : Action Text}

/-- A registration in progress owns its identifier, as a returned one does. -/
structure Safe (l : Ledger Text) : Prop where
  returned : ∀ x ∈ l.returned, l.world.inner.scene x.1 = some x.2
  once : (l.returned.map Prod.fst).Nodup
  pending : ∀ {n id r}, l.world.tasks n = some (.activate id r) →
    l.world.inner.scene id = some r ∧ id ∉ l.returned.map Prod.fst
  distinct : ∀ {n m id r q}, l.world.tasks n = some (.activate id r) →
    l.world.tasks m = some (.activate id q) → n = m
  active : ∀ id ∈ l.world.inner.active,
    (l.world.inner.scene id).isSome ∨ ∃ m, l.world.tasks m = some .clearActive

namespace Safe

/-- Nothing but the pointer and the calls that register no scene has changed. -/
theorem frame (safe : l.Safe) (returned : l'.returned = l.returned)
    (scenes : l'.world.inner.scenes = l.world.inner.scenes)
    (pending : ∀ {n id r}, l'.world.tasks n = some (.activate id r) →
      l.world.tasks n = some (.activate id r))
    (active : ∀ id ∈ l'.world.inner.active,
      (l.world.inner.scene id).isSome ∨ ∃ m, l'.world.tasks m = some .clearActive) : l'.Safe := by
  have lookup (id : SceneId) : l'.world.inner.scene id = l.world.inner.scene id := by
    rw [ServerInner.scene, ServerInner.scene, scenes]
  refine ⟨fun x member => ?_, ?_, fun task => ?_, fun first second => ?_, fun id found => ?_⟩
  · rw [lookup]
    exact safe.returned x (returned ▸ member)
  · rw [returned]
    exact safe.once
  · rw [lookup, returned]
    exact safe.pending (pending task)
  · exact safe.distinct (pending first) (pending second)
  · rw [lookup]
    exact active id found

/-- A pending clear stays pending while another task takes a step. -/
theorem active_of_update (safe : l.Safe) {n : Nat} {call : ServerCall} {rest : Option ServerCall}
    (task : l.world.tasks n = some call) (other : call ≠ .clearActive) :
    ∀ id ∈ l.world.inner.active, (l.world.inner.scene id).isSome ∨
      ∃ m, Function.update l.world.tasks n rest m = some .clearActive := by
  intro id found
  refine (safe.active id found).imp_right fun ⟨m, clearing⟩ => ⟨m, ?_⟩
  have apart : m ≠ n := by
    rintro rfl
    exact other (Option.some.inj (task.symm.trans clearing))
  rw [Function.update_of_ne apart]
  exact clearing

end Safe

/-- Only an insertion adds a call that is about to activate its scene. -/
theorem pending_of_serve {n : Nat} {call : ServerCall} {inner : ServerInner Text}
    (plain : ∀ reg, call ≠ .insert reg)
    (tasks : l'.world.tasks = Function.update l.world.tasks n (call.step P inner).2.rest)
    {m : Nat} {id : SceneId} {r : SceneRef} (h : l'.world.tasks m = some (.activate id r)) :
    m ≠ n ∧ l.world.tasks m = some (.activate id r) := by
  rw [tasks] at h
  by_cases same : m = n
  · subst same
    rw [Function.update_self] at h
    obtain ⟨reg, insertion⟩ := ServerCall.insert_of_rest h
    exact absurd insertion (plain reg)
  · rw [Function.update_of_ne same] at h
    exact ⟨same, h⟩

namespace Safe

/-- A registered identifier stays registered at an insertion under a free one. -/
theorem scene_insert {inner : ServerInner Text} {id key : SceneId} {r : SceneRef}
    {scene : Scene Text} (free : inner.scene id = none) (found : inner.scene key = some r) :
    key ≠ id ∧ (inner.insert id scene).scene key = some r := by
  have apart : key ≠ id := by
    rintro rfl
    rw [free] at found
    cases found
  refine ⟨apart, ?_⟩
  rw [ServerInner.scene, ServerInner.insert, Std.ExtTreeMap.getElem?_insert]
  simpa [ServerInner.scene, Ne.symm apart] using found

theorem insert (safe : l.Safe) {n : Nat} {reg : Registration}
    (task : l.world.tasks n = some (.insert reg)) (free : l.world.inner.scene reg.id = none)
    (returned : l'.returned = l.returned)
    (inner : l'.world.inner = l.world.inner.insert reg.id (reg.scene P))
    (tasks : l'.world.tasks = Function.update l.world.tasks n
      (some (.activate reg.id l.world.inner.nextRef))) : l'.Safe := by
  have fresh : reg.id ∉ l.returned.map Prod.fst := by
    intro member
    obtain ⟨x, member, same⟩ := List.mem_map.mp member
    have found := safe.returned x member
    rw [same, free] at found
    cases found
  have pending {m : Nat} {id : SceneId} {r : SceneRef}
      (h : l'.world.tasks m = some (.activate id r)) :
      (m = n ∧ id = reg.id ∧ r = l.world.inner.nextRef) ∨
        (m ≠ n ∧ id ≠ reg.id ∧ l.world.tasks m = some (.activate id r)) := by
    rw [tasks] at h
    by_cases same : m = n
    · subst same
      rw [Function.update_self] at h
      cases h
      exact .inl ⟨rfl, rfl, rfl⟩
    · rw [Function.update_of_ne same] at h
      exact .inr ⟨same, (@scene_insert _ _ _ _ _ (reg.scene P) free (safe.pending h).1).1, h⟩
  refine ⟨fun x member => ?_, ?_, fun task => ?_, fun first second => ?_, fun id found => ?_⟩
  · rw [inner]
    exact (scene_insert free (safe.returned x (returned ▸ member))).2
  · rw [returned]
    exact safe.once
  · rw [inner, returned]
    rcases pending task with ⟨rfl, rfl, rfl⟩ | ⟨_, _, old⟩
    · exact ⟨by simp [ServerInner.scene, ServerInner.insert], fresh⟩
    · exact ⟨(scene_insert free (safe.pending old).1).2, (safe.pending old).2⟩
  · rcases pending first with ⟨rfl, same, _⟩ | ⟨_, apart, old⟩ <;>
      rcases pending second with ⟨rfl, same', _⟩ | ⟨_, apart', old'⟩
    · rfl
    · exact absurd same apart'
    · exact absurd same' apart
    · exact safe.distinct old old'
  · rw [inner] at found ⊢
    rw [tasks]
    refine (safe.active_of_update task (by simp) id found).imp_left fun registered => ?_
    obtain ⟨r, registered⟩ := Option.isSome_iff_exists.mp registered
    rw [(scene_insert free registered).2]
    rfl

theorem activate (safe : l.Safe) {n : Nat} {id : SceneId} {r : SceneRef}
    (task : l.world.tasks n = some (.activate id r))
    (returned : l'.returned = l.returned ++ [(id, r)])
    (inner : l'.world.inner = l.world.inner.activate id)
    (tasks : l'.world.tasks = Function.update l.world.tasks n
      ((ServerCall.activate id r).step P l.world.inner).2.rest) : l'.Safe := by
  obtain ⟨registered, fresh⟩ := safe.pending task
  have lookup (key : SceneId) : l'.world.inner.scene key = l.world.inner.scene key := by
    rw [inner]
    rfl
  have pending {m : Nat} {key : SceneId} {q : SceneRef}
      (h : l'.world.tasks m = some (.activate key q)) :
      m ≠ n ∧ l.world.tasks m = some (.activate key q) :=
    pending_of_serve (by simp) tasks h
  refine ⟨fun x member => ?_, ?_, fun other => ?_, fun first second => ?_, fun key found => ?_⟩
  · rw [lookup]
    rw [returned, List.mem_append, List.mem_singleton] at member
    rcases member with old | rfl
    · exact safe.returned x old
    · exact registered
  · rw [returned, List.map_append, List.nodup_append]
    refine ⟨safe.once, by simp, fun x old y new => ?_⟩
    rw [List.map_singleton, List.mem_singleton] at new
    rintro rfl
    rw [new] at old
    exact fresh old
  · obtain ⟨apart, old⟩ := pending other
    rw [lookup, returned, List.map_append, List.mem_append, List.map_singleton,
      List.mem_singleton]
    refine ⟨(safe.pending old).1, not_or.mpr ⟨(safe.pending old).2, ?_⟩⟩
    rintro rfl
    exact apart (safe.distinct old task)
  · exact safe.distinct (pending first).2 (pending second).2
  · rw [lookup, tasks]
    rw [inner, ServerInner.activate] at found
    cases active : l.world.inner.active with
    | some current =>
        rw [active, Option.some_or] at found
        exact safe.active_of_update task (by simp) key (active ▸ found)
    | none =>
        rw [active, Option.none_or] at found
        cases found
        exact .inl (by rw [registered]; rfl)

theorem clear {n : Nat} (quiet : ∀ m id r, l.world.tasks m ≠ some (.activate id r))
    (returned : l'.returned = [])
    (tasks : l'.world.tasks = Function.update l.world.tasks n
      (ServerCall.clearScenes.step P l.world.inner).2.rest) : l'.Safe := by
  have pending {m : Nat} {id : SceneId} {r : SceneRef} :
      l'.world.tasks m ≠ some (.activate id r) := by
    intro h
    exact quiet m id r (pending_of_serve (by simp) tasks h).2
  refine ⟨by simp [returned], by simp [returned], fun h => (pending h).elim,
    fun h => (pending h).elim, fun id _ => .inr ⟨n, ?_⟩⟩
  rw [tasks]
  exact Function.update_self ..

/-- A check of a call, or its event, leaves registry and pointer as they are. -/
theorem pass (safe : l.Safe) {n : Nat} {call : ServerCall} (task : l.world.tasks n = some call)
    (plain : call ≠ .clearActive ∧ ∀ reg, call ≠ .insert reg) (returned : l'.returned = l.returned)
    (scenes : l'.world.inner.scenes = l.world.inner.scenes)
    (active : l'.world.inner.active = l.world.inner.active)
    (tasks : l'.world.tasks =
      Function.update l.world.tasks n (call.step P l.world.inner).2.rest) : l'.Safe := by
  refine safe.frame returned scenes (fun h => (pending_of_serve plain.2 tasks h).2) ?_
  rw [active, tasks]
  exact safe.active_of_update task plain.1

/-- One locked step of a call. -/
theorem serve (safe : l.Safe) {n : Nat} {call : ServerCall} (task : l.world.tasks n = some call)
    (checks : l.world.ChecksHold (.serve n)) (returned : l'.returned = l.record (.serve n))
    (inner : l'.world.inner = (call.step P l.world.inner).1)
    (tasks : l'.world.tasks =
      Function.update l.world.tasks n (call.step P l.world.inner).2.rest) : l'.Safe := by
  simp only [Ledger.record, task] at returned
  simp only [World.ChecksHold, task] at checks
  cases call with
  | register reg =>
      rw [(ServerCall.step_check P _).1] at inner
      exact safe.pass task (by simp) returned (by rw [inner]) (by rw [inner]) tasks
  | insert reg => exact safe.insert task checks returned inner tasks
  | activate id r => exact safe.activate task returned inner tasks
  | setActiveScene id =>
      rw [(ServerCall.step_check P _).2] at inner
      exact safe.pass task (by simp) returned (by rw [inner]) (by rw [inner]) tasks
  | writeActive id =>
      refine safe.frame returned (by rw [inner]; rfl)
        (fun h => (pending_of_serve (by simp) tasks h).2) ?_
      intro key found
      rw [inner] at found
      cases found
      refine checks.imp_right fun ⟨m, clearing⟩ => ⟨m, ?_⟩
      have apart : m ≠ n := by
        rintro rfl
        cases task.symm.trans clearing
      rw [tasks, Function.update_of_ne apart]
      exact clearing
  | sendSwap id =>
      exact safe.pass task (by simp) returned (by rw [inner]; rfl) (by rw [inner]; rfl) tasks
  | clearScenes => exact clear checks returned tasks
  | clearActive =>
      refine safe.frame returned (by rw [inner]; rfl)
        (fun h => (pending_of_serve (by simp) tasks h).2) ?_
      rw [inner]
      nofun

theorem step (safe : l.Safe) (checks : l.world.ChecksHold a) (h : l.step P a = some l') :
    l'.Safe := by
  obtain ⟨w, stepped, rfl⟩ := Option.map_eq_some_iff.mp h
  by_cases serves : ∃ n, a = .serve n
  · obtain ⟨n, rfl⟩ := serves
    obtain ⟨call, task, rfl⟩ := Option.map_eq_some_iff.mp stepped
    exact safe.serve task checks rfl rfl rfl
  have kept : l.record a = l.returned := by
    cases a with
    | serve n => exact absurd ⟨n, rfl⟩ serves
    | scene | request | receive | handler | hangup => rfl
  rcases World.call_cases stepped with ⟨n, call, rfl, _⟩ | ⟨n, q, rfl, free, inner, tasks⟩ |
    ⟨tasks, _, scenes, active, _⟩
  · exact absurd ⟨n, rfl⟩ serves
  · have other {m : Nat} {call : ServerCall} (task : l.world.tasks m = some call) : m ≠ n := by
      rintro rfl
      cases free.symm.trans task
    refine safe.frame kept (by rw [inner]) (fun {m id r} h => ?_) fun id found => ?_
    · rw [tasks] at h
      by_cases same : m = n
      · subst same
        rw [Function.update_self] at h
        cases q <;> cases h
      · exact (Function.update_of_ne same ..).symm.trans h
    · rw [inner] at found
      refine (safe.active id found).imp_right fun ⟨m, clearing⟩ => ⟨m, ?_⟩
      rw [tasks, Function.update_of_ne (other clearing)]
      exact clearing
  · refine safe.frame kept scenes (fun h => tasks ▸ h) ?_
    rw [active, tasks]
    exact safe.active

end Safe

/-- No call is in progress. -/
def Idle (l : Ledger Text) : Prop := ∀ n, l.world.tasks n = none

/-- The pointer is empty or names a registered scene. -/
def ActiveRegistered (l : Ledger Text) : Prop :=
  ∀ id ∈ l.world.inner.active, (l.world.inner.scene id).isSome

instance (l : Ledger Text) : Decidable l.ActiveRegistered :=
  inferInstanceAs (Decidable (∀ id ∈ l.world.inner.active, (l.world.inner.scene id).isSome))

/-- In every run from an idle server in which what a call has checked still holds when
it acts: since the last clear, at most one registration of an identifier has returned,
and its scene is the one registered; and when no call is in progress, the active scene
is registered. -/
theorem registry_safe {P : Platform Text} {start stop : Ledger Text}
    {schedule : List (Action Text)} (idle : start.Idle) (fresh : start.returned = [])
    (active : start.ActiveRegistered)
    (checks : Along (Ledger.step P) (fun l a => l.world.ChecksHold a) start schedule)
    (reach : run (Ledger.step P) start schedule = some stop) :
    ((stop.returned.map Prod.fst).Nodup ∧
        ∀ id r, (id, r) ∈ stop.returned → stop.world.inner.scene id = some r) ∧
      (stop.Idle → stop.ActiveRegistered) := by
  have safe : start.Safe := by
    refine ⟨by simp [fresh], by simp [fresh], fun h => ?_, fun h => ?_, fun id found =>
      .inl (active id found)⟩
    · cases (idle _).symm.trans h
    · cases (idle _).symm.trans h
  have stays : stop.Safe := checks.invariant (fun _ _ _ safe checks h => safe.step checks h)
    safe reach
  refine ⟨⟨stays.once, fun id r member => stays.returned _ member⟩, fun idle id found => ?_⟩
  rcases stays.active id found with registered | ⟨m, clearing⟩
  · exact registered
  · cases (idle m).symm.trans clearing

/-- The call is about to activate the scene that it has inserted. -/
private def activates : ServerCall → Bool
  | .activate .. => true
  | _ => false

/-- The checks, decided when only the tasks below `k` make calls. -/
private def checksBelow (k : Nat) (w : World Text) (a : Action Text) : Bool :=
  a.isBelow k && match a with
    | .serve n =>
        match w.tasks n with
        | some (.insert reg) => (w.inner.scene reg.id).isNone
        | some .clearScenes => (List.range k).all fun m => !(w.tasks m).any activates
        | some (.writeActive id) => (w.inner.scene id).isSome
        | _ => true
    | _ => true

private theorem checksHold_of_below {k : Nat} {w : World Text} {a : Action Text}
    (below : w.TasksBelow k) (checks : checksBelow k w a = true) : w.ChecksHold a := by
  simp only [checksBelow, Bool.and_eq_true] at checks
  replace checks := checks.2
  cases a with
  | serve n =>
      cases task : w.tasks n with
      | none => simp [World.ChecksHold, task]
      | some call =>
          simp only [task] at checks
          simp only [World.ChecksHold, task]
          cases call with
          | insert reg => exact Option.isNone_iff_eq_none.mp checks
          | writeActive id => exact .inl checks
          | clearScenes =>
              intro m id r pending
              by_cases low : m < k
              · have := List.all_eq_true.mp checks m (List.mem_range.mpr low)
                simp [pending, activates] at this
              · cases (below m (Nat.not_lt.mp low)).symm.trans pending
          | register | activate | setActiveScene | sendSwap | clearActive => trivial
  | scene | request | receive | handler | hangup => trivial

private theorem along_of_below {P : Platform Text} {k : Nat} {l : Ledger Text}
    {schedule : List (Action Text)} (idle : l.Idle)
    (checks : Along (Ledger.step P) (fun l a => checksBelow k l.world a = true) l schedule) :
    Along (Ledger.step P) (fun l a => l.world.ChecksHold a) l schedule := by
  have preserve (l : Ledger Text) (a : Action Text) (l' : Ledger Text)
      (below : l.world.TasksBelow k) (checks : checksBelow k l.world a = true)
      (h : l.step P a = some l') : l'.world.TasksBelow k := by
    obtain ⟨w, stepped, rfl⟩ := Option.map_eq_some_iff.mp h
    exact below.step (Bool.and_eq_true_iff.mp checks).1 stepped
  exact (checks.with_invariant preserve fun n _ => idle n).mono
    fun l a both => checksHold_of_below both.1 both.2

/-- A server without scenes. -/
private def emptyServer : Ledger Value where
  world :=
    { inner :=
        { heap := fun _ => { scene := Scene.new "" "v1" }
          nextRef := 0
          scenes := ∅
          active := none
          events := Broadcast.new eventCapacity }
      tasks := fun _ => none
      conns := fun _ => { rate := RateBucket.new 0 0 } }

private theorem emptyServer_idle : emptyServer.Idle := fun _ => rfl

private def registering (n : Nat) (id : SceneId) : Action Value := .request n (.newScene id "v1")

/-- Two registrations of different identifiers, step by step in turn. -/
private def inTurn : List (Action Value) :=
  [registering 0 "studio", registering 1 "stage", .serve 0, .serve 1, .serve 1, .serve 0,
    .serve 0, .serve 1]

/-- Registrations, an activation, a clear, and the registrations again. -/
private def cleared : List (Action Value) :=
  inTurn ++ .request 0 (.setActiveScene "stage") :: List.replicate 3 (.serve 0) ++
    .request 1 .clearScenes :: List.replicate 2 (.serve 1) ++ inTurn

theorem registry_safe_cleared :
    ∃ stop, run (Ledger.step valuePlatform) emptyServer cleared = some stop ∧
      stop.returned = [("studio", 3), ("stage", 2)] ∧
      ∀ id r, (id, r) ∈ stop.returned → stop.world.inner.scene id = some r := by
  have ends : (run (Ledger.step valuePlatform) emptyServer cleared).any (fun stop =>
      stop.returned = [("studio", 3), ("stage", 2)]) = true := by
    decide
  obtain ⟨stop, reach, returned⟩ := exists_run_of_any ends
  have checks : Along (Ledger.step valuePlatform) (fun l a => l.world.ChecksHold a) emptyServer
      cleared :=
    along_of_below (k := 2) emptyServer_idle (by decide)
  exact ⟨stop, reach, returned,
    (registry_safe emptyServer_idle rfl (by decide) checks reach).1.2⟩

/-- Two registrations of one identifier that both find it free. -/
private def twice : List (Action Value) :=
  [registering 0 "studio", registering 1 "studio", .serve 0, .serve 1, .serve 0, .serve 1,
    .serve 0, .serve 1]

/-- A clear of the registry between the check of an activation and its write. -/
private def clearedBetween : List (Action Value) :=
  registering 0 "studio" :: List.replicate 3 (.serve 0) ++
    [.request 0 (.setActiveScene "studio"), .serve 0, .request 1 .clearScenes, .serve 1, .serve 1,
      .serve 0, .serve 0]

/-- Two registrations of `studio` return, the first with a scene that the registry does
not have; and without any call in progress, the active scene is not registered. -/
theorem registry_unsafe :
    (∃ stop, run (Ledger.step valuePlatform) emptyServer twice = some stop ∧
        stop.returned = [("studio", 0), ("studio", 1)] ∧
        stop.world.inner.scene "studio" ≠ some 0) ∧
      ∃ stop, run (Ledger.step valuePlatform) emptyServer clearedBetween = some stop ∧
        stop.Idle ∧ ¬stop.ActiveRegistered := by
  refine ⟨exists_run_of_any (by decide), ?_⟩
  have ends : (run (Ledger.step valuePlatform) emptyServer clearedBetween).any (fun stop =>
      (∀ n < 2, stop.world.tasks n = none) ∧ ¬stop.ActiveRegistered) = true := by
    decide
  obtain ⟨stop, reach, done, dangling⟩ := exists_run_of_any ends
  have idle : stop.Idle :=
    World.idle_of_below (k := 2) emptyServer_idle (by decide) (run_world reach) done
  exact ⟨stop, reach, idle, dangling⟩

end Ledger
end Lumencast.Server
