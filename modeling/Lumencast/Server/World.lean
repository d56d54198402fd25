import Lumencast.Server.Connection
import Lumencast.Server.SingleEmitter

/-!
# The whole server

All scenes, all connections, all adapter tasks and all calls of the server
handle, interleaved at their locked steps. A schedule is a list of actions, and
`run (World.step P)` executes it.

`scene_cases` and `conn_cases` say what one action can do to one scene and to one
connection. The invariants of later modules are derived from these two.
-/

namespace Lumencast.Server

open Foundation Protocol

variable {Text : Type}

/-- A request to the server handle. -/
inductive ServerRequest where
  | newScene (id : SceneId) (version : SceneVersion)
  | registerBundle (bundle : Bundle)
  | setActiveScene (id : SceneId)
  | clearScenes
  deriving DecidableEq

def ServerRequest.start : ServerRequest → ServerCall
  | newScene id version => .register (.plain id version)
  | registerBundle bundle => .register (.bundle bundle)
  | setActiveScene id => .setActiveScene id
  | clearScenes => .clearScenes

/-- A scene action that is not taken by a connection handler on its own account. -/
def SceneAction.isExternal : SceneAction → Bool
  | .emit (.adapter _) .. | .progress _ | .reject .. | .withOperatorInputs _ => true
  | .emit (.handler _) .. | .change => false

inductive Action (Text : Type) where
  /-- An adapter task, or the next locked step of any emission. -/
  | scene (r : SceneRef) (a : SceneAction)
  | request (n : Nat) (q : ServerRequest)
  /-- The next locked step of the call that task `n` makes. -/
  | serve (n : Nat)
  | receive (c : Nat) (m : Message Text)
  | handler (c : Nat) (amb : Ambient)
  /-- The socket fails, or the subscribe timeout elapses. -/
  | hangup (c : Nat)

/-- The action starts no call of a task from `k` on. -/
def Action.isBelow (k : Nat) : Action Text → Bool
  | .request n _ => n < k
  | .scene .. | .serve _ | .receive .. | .handler .. | .hangup _ => true

structure World (Text : Type) where
  inner : ServerInner Text
  tasks : Nat → Option ServerCall
  conns : Nat → Connection Text

/-- Carry out what a handler step asks of a scene. -/
def ServerInner.perform (inner : ServerInner Text) :
    Option (SceneRef × SceneAction) → Option (ServerInner Text)
  | none => some inner
  | some (r, a) => inner.onScene r a

namespace World

/-- The handler is inside an emission of its own. -/
def busy (w : World Text) (c : Nat) : Bool :=
  (w.conns c).current.elim false fun r => ((w.inner.heap r).emission (.handler c)).isSome

def setConn (w : World Text) (c : Nat) (conn : Connection Text) : World Text :=
  { w with conns := Function.update w.conns c conn }

def step (P : Platform Text) (w : World Text) : Action Text → Option (World Text)
  | .scene r a =>
      if r < w.inner.nextRef ∧ a.isExternal then
        (w.inner.onScene r a).map fun inner => { w with inner }
      else none
  | .request n q =>
      if (w.tasks n).isSome then none
      else some { w with tasks := Function.update w.tasks n (some q.start) }
  | .serve n => (w.tasks n).map fun call =>
      { w with
        inner := (call.step P w.inner).1
        tasks := Function.update w.tasks n (call.step P w.inner).2.rest }
  | .receive c m =>
      some (w.setConn c { w.conns c with inbox := (w.conns c).inbox ++ [m] })
  | .handler c amb =>
      if w.busy c then none
      else
        ((w.conns c).step P.toTextLayer w.inner c amb).bind fun o =>
          (w.inner.perform o.effect).map fun inner => { w.setConn c o.conn with inner }
  | .hangup c => if w.busy c then none else some (w.setConn c ((w.conns c).goto .closed))

/-- The condition `Q` holds of the connection `c` when its handler takes a step. -/
def AtHandler (c : Nat) (Q : ServerInner Text → Connection Text → Prop) (w : World Text) :
    Action Text → Prop
  | .handler d _ => d = c → Q w.inner (w.conns d)
  | _ => True

instance (c : Nat) (Q : ServerInner Text → Connection Text → Prop)
    [∀ inner conn, Decidable (Q inner conn)] (w : World Text) :
    (a : Action Text) → Decidable (w.AtHandler c Q a)
  | .handler d _ => inferInstanceAs (Decidable (d = c → Q w.inner (w.conns d)))
  | .scene .. | .request .. | .serve _ | .receive .. | .hangup _ => isTrue trivial

variable {P : Platform Text} {w w' : World Text} {a : Action Text}

/-- A handler step, and its effect on a scene. -/
theorem step_handler {c : Nat} {amb : Ambient} (h : w.step P (.handler c amb) = some w') :
    ∃ o, (w.conns c).step P.toTextLayer w.inner c amb = some o ∧
      w'.conns = Function.update w.conns c o.conn ∧ w.inner.perform o.effect = some w'.inner := by
  simp only [step] at h
  split at h
  · cases h
  · obtain ⟨o, stepped, performed⟩ := Option.bind_eq_some_iff.mp h
    obtain ⟨inner, effect, rfl⟩ := Option.map_eq_some_iff.mp performed
    exact ⟨o, stepped, rfl, effect⟩

/-- What one action does to one connection. -/
theorem conn_cases (h : w.step P a = some w') (c : Nat) :
    w'.conns c = w.conns c ∨
      (∃ m, a = .receive c m ∧
        w'.conns c = { w.conns c with inbox := (w.conns c).inbox ++ [m] }) ∨
      (a = .hangup c ∧ w'.conns c = (w.conns c).goto .closed) ∨
      ∃ amb o, a = .handler c amb ∧ (w.conns c).step P.toTextLayer w.inner c amb = some o ∧
        w'.conns c = o.conn ∧ w.inner.perform o.effect = some w'.inner := by
  cases a with
  | scene r a =>
      simp only [step] at h
      split at h
      · obtain ⟨inner, _, rfl⟩ := Option.map_eq_some_iff.mp h
        exact .inl rfl
      · cases h
  | request n q =>
      simp only [step] at h
      split at h <;> cases h
      exact .inl rfl
  | serve n =>
      obtain ⟨call, _, rfl⟩ := Option.map_eq_some_iff.mp h
      exact .inl rfl
  | receive d m =>
      cases h
      by_cases same : c = d
      · subst same
        exact .inr (.inl ⟨m, rfl, Function.update_self ..⟩)
      · exact .inl (Function.update_of_ne same ..)
  | handler d amb =>
      obtain ⟨o, stepped, conns, effect⟩ := step_handler h
      rw [conns]
      by_cases same : c = d
      · subst same
        exact .inr (.inr (.inr ⟨amb, o, rfl, stepped, Function.update_self .., effect⟩))
      · exact .inl (Function.update_of_ne same ..)
  | hangup d =>
      simp only [step] at h
      split at h <;> cases h
      by_cases same : c = d
      · subst same
        exact .inr (.inr (.inl ⟨rfl, Function.update_self ..⟩))
      · exact .inl (Function.update_of_ne same ..)

/-- A property of one connection that does not read its inbox and holds once it is closed is
kept by every action, if it is kept by the steps of its handler. -/
theorem conn_step {Q : Connection Text → Prop} {c : Nat} (h : w.step P a = some w')
    (unread : ∀ inbox, Q { w.conns c with inbox }) (closes : Q ((w.conns c).goto .closed))
    (handles : ∀ amb o, a = .handler c amb →
      (w.conns c).step P.toTextLayer w.inner c amb = some o → Q o.conn) : Q (w'.conns c) := by
  rcases conn_cases h c with same | ⟨m, _, same⟩ | ⟨_, same⟩ | ⟨amb, o, taken, stepped, same, _⟩
  · rw [same]
    exact unread (w.conns c).inbox
  · rw [same]
    exact unread _
  · rw [same]
    exact closes
  · rw [same]
    exact handles amb o taken stepped

/-- A call of the server handle touches no connection. -/
theorem conns_of_call (h : w.step P a = some w')
    (call : (∃ n, a = .serve n) ∨ ∃ n q, a = .request n q) : w'.conns = w.conns := by
  funext c
  rcases conn_cases h c with same | ⟨_, rfl, _⟩ | ⟨rfl, _⟩ | ⟨_, _, rfl, _⟩
  · exact same
  · simp at call
  · simp at call
  · simp at call

/-- The connection `c` leaves the scene `r` in this action. -/
def Leaves (w : World Text) (a : Action Text) (c : Nat) (r : SceneRef) : Prop :=
  ∃ amb target, a = .handler c amb ∧ (w.conns c).phase = .advancing target ∧
    (w.conns c).current = some r

/-- A connection carries out a swap in this action. -/
def leaving (w : World Text) : Action Text → Bool
  | .handler c _ =>
      match (w.conns c).phase with
      | .advancing _ => true
      | _ => false
  | _ => false

theorem Leaves.leaving {c : Nat} {r : SceneRef} (leaves : w.Leaves a c r) :
    w.leaving a = true := by
  obtain ⟨amb, target, rfl, phase, _⟩ := leaves
  simp [World.leaving, phase]

theorem onScene_heap {inner inner' : ServerInner Text} {r : SceneRef} {sa : SceneAction}
    (h : inner.onScene r sa = some inner') (q : SceneRef) :
    inner'.heap q = inner.heap q ∨
      (q = r ∧ (inner.heap r).step sa = some (inner'.heap r)) := by
  obtain ⟨cell, stepped, rfl⟩ := Option.map_eq_some_iff.mp h
  by_cases same : q = r
  · subst same
    have stored : (inner.setCell q cell).heap q = cell := Function.update_self ..
    exact .inr ⟨rfl, by rw [stepped, stored]⟩
  · exact .inl (Function.update_of_ne same ..)

/-- What one action does to one scene: a scene step, the creation of the scene, or
nothing. Only a connection that leaves the scene takes a number without an emission, and
an emission in progress is moved by a scene action alone. -/
theorem scene_cases (h : w.step P a = some w') (r : SceneRef) :
    w'.inner.heap r = w.inner.heap r ∨
      (r = w.inner.nextRef ∧ ∃ reg : Registration, w'.inner.heap r = { scene := reg.scene P }) ∨
      ∃ sa, (w.inner.heap r).step sa = some (w'.inner.heap r) ∧
        (sa = .change → ∃ c, w.Leaves a c r) ∧
        ∀ caller, sa = .progress caller → a = .scene r sa := by
  cases a with
  | scene q sa =>
      simp only [step] at h
      split at h
      · next allowed =>
        obtain ⟨inner, stepped, rfl⟩ := Option.map_eq_some_iff.mp h
        rcases onScene_heap stepped r with same | ⟨rfl, stepped⟩
        · exact .inl same
        · refine .inr (.inr ⟨sa, stepped, ?_, fun _ _ => rfl⟩)
          rintro rfl
          simp [SceneAction.isExternal] at allowed
      · cases h
  | request n q =>
      simp only [step] at h
      split at h <;> cases h
      exact .inl rfl
  | serve n =>
      obtain ⟨call, task, rfl⟩ := Option.map_eq_some_iff.mp h
      rcases call.step_heap P w.inner with ⟨heap, _⟩ | ⟨reg, heap, _⟩
      · exact .inl (congrFun heap r)
      · by_cases new : r = w.inner.nextRef
        · subst new
          exact .inr (.inl ⟨rfl, reg, (congrFun heap _).trans (Function.update_self ..)⟩)
        · exact .inl ((congrFun heap r).trans (Function.update_of_ne new ..))
  | receive c m =>
      cases h
      exact .inl rfl
  | handler c amb =>
      obtain ⟨o, stepped, _, effect⟩ := step_handler h
      cases asked : o.effect with
      | none =>
          rw [asked] at effect
          exact .inl (by rw [← Option.some.inj effect])
      | some request =>
          obtain ⟨q, sa⟩ := request
          rw [asked] at effect
          rcases onScene_heap effect r with same | ⟨rfl, stepped'⟩
          · exact .inl same
          · refine .inr (.inr ⟨sa, stepped', ?_, ?_⟩)
            · rintro rfl
              obtain ⟨target, phase, current⟩ := Connection.leaves_of_change stepped asked
              exact ⟨c, amb, target, rfl, phase, current⟩
            · rintro caller rfl
              exact absurd asked (Connection.not_progress_of_step stepped)
  | hangup c =>
      simp only [step] at h
      split at h <;> cases h
      exact .inl rfl

/-- Every reference that is held anywhere points to a scene that exists. -/
structure Wf (w : World Text) : Prop where
  registered : ∀ {id : SceneId} {r : SceneRef}, w.inner.scene id = some r → r < w.inner.nextRef
  current : ∀ {c : Nat} {r : SceneRef}, (w.conns c).current = some r → r < w.inner.nextRef
  target : ∀ {c : Nat} {r : SceneRef}, (w.conns c).phase.target = some r → r < w.inner.nextRef

/-- A server before it has served: existing scenes are idle, their counters cover
what they have broadcast, and no connection has spoken. -/
structure Init (w : World Text) : Prop where
  registered : ∀ {id : SceneId} {r : SceneRef}, w.inner.scene id = some r → r < w.inner.nextRef
  idle : ∀ r, (w.inner.heap r).calls = []
  sound : ∀ r, Sound (w.inner.heap r).scene []
  awaiting : ∀ c, (w.conns c).phase = .awaiting
  unresolved : ∀ c, (w.conns c).current = none
  silent : ∀ c, (w.conns c).outbox = []

theorem Init.wf (init : w.Init) : w.Wf where
  registered := init.registered
  current := by
    intro c r h
    rw [init.unresolved c] at h
    cases h
  target := by
    intro c r h
    rw [init.awaiting c] at h
    cases h

/-- A call of the server handle takes a step or begins, or registry, pointer, events and
calls stay as they are. -/
theorem call_cases (h : w.step P a = some w') :
    (∃ n call, a = .serve n ∧ w.tasks n = some call ∧ w'.inner = (call.step P w.inner).1 ∧
        w'.tasks = Function.update w.tasks n (call.step P w.inner).2.rest) ∨
      (∃ n q, a = .request n q ∧ w.tasks n = none ∧ w'.inner = w.inner ∧
        w'.tasks = Function.update w.tasks n (some q.start)) ∨
      (w'.tasks = w.tasks ∧ w'.inner.nextRef = w.inner.nextRef ∧
        w'.inner.scenes = w.inner.scenes ∧ w'.inner.active = w.inner.active ∧
        w'.inner.events = w.inner.events) := by
  have onScene {inner inner' : ServerInner Text} {r : SceneRef} {sa : SceneAction}
      (effect : inner.onScene r sa = some inner') :
      inner'.nextRef = inner.nextRef ∧ inner'.scenes = inner.scenes ∧
        inner'.active = inner.active ∧ inner'.events = inner.events := by
    obtain ⟨cell, _, rfl⟩ := Option.map_eq_some_iff.mp effect
    exact ⟨rfl, rfl, rfl, rfl⟩
  cases a with
  | scene q sa =>
      simp only [step] at h
      split at h
      · obtain ⟨inner, stepped, rfl⟩ := Option.map_eq_some_iff.mp h
        exact .inr (.inr ⟨rfl, onScene stepped⟩)
      · cases h
  | request n q =>
      simp only [step] at h
      split at h
      · cases h
      · next free =>
        cases h
        exact .inr (.inl ⟨n, q, rfl, by simpa using free, rfl, rfl⟩)
  | serve n =>
      obtain ⟨call, task, rfl⟩ := Option.map_eq_some_iff.mp h
      exact .inl ⟨n, call, rfl, task, rfl, rfl⟩
  | receive c m =>
      cases h
      exact .inr (.inr ⟨rfl, rfl, rfl, rfl, rfl⟩)
  | handler c amb =>
      simp only [step] at h
      split at h
      · cases h
      · obtain ⟨o, _, performed⟩ := Option.bind_eq_some_iff.mp h
        obtain ⟨inner, effect, rfl⟩ := Option.map_eq_some_iff.mp performed
        cases asked : o.effect with
        | none =>
            rw [asked] at effect
            cases effect
            exact .inr (.inr ⟨rfl, rfl, rfl, rfl, rfl⟩)
        | some request =>
            rw [asked] at effect
            exact .inr (.inr ⟨rfl, onScene effect⟩)
  | hangup c =>
      simp only [step] at h
      split at h <;> cases h
      exact .inr (.inr ⟨rfl, rfl, rfl, rfl, rfl⟩)

/-- Only the tasks below `k` have a call in progress. -/
def TasksBelow (k : Nat) (w : World Text) : Prop := ∀ n, k ≤ n → w.tasks n = none

theorem TasksBelow.step {k : Nat} (below : w.TasksBelow k) (named : a.isBelow k = true)
    (h : w.step P a = some w') : w'.TasksBelow k := by
  intro n from_
  rcases call_cases h with ⟨m, call, _, task, _, tasks⟩ | ⟨m, q, rfl, _, _, tasks⟩ | ⟨tasks, _⟩
  · have other : n ≠ m := by
      rintro rfl
      rw [below n from_] at task
      cases task
    rw [tasks, Function.update_of_ne other]
    exact below n from_
  · have other : n ≠ m := by
      rintro rfl
      exact absurd (of_decide_eq_true named) (Nat.not_lt.mpr from_)
    rw [tasks, Function.update_of_ne other]
    exact below n from_
  · rw [tasks]
    exact below n from_

/-- Tasks that were given no call make none. -/
theorem idle_of_below {k : Nat} {schedule : List (Action Text)} (idle : ∀ n, w.tasks n = none)
    (named : ∀ a ∈ schedule, a.isBelow k = true)
    (reach : run (World.step P) w schedule = some w') (done : ∀ n < k, w'.tasks n = none) :
    ∀ n, w'.tasks n = none := by
  have below : w'.TasksBelow k :=
    (Along.of_forall_mem fun a member _ => named a member).invariant
      (fun _ _ _ below named h => TasksBelow.step below named h) (fun n _ => idle n) reach
  intro n
  by_cases low : n < k
  · exact done n low
  · exact below n (Nat.not_lt.mp low)

/-- Only a call of the server handle changes the registry. -/
theorem registry_cases (h : w.step P a = some w') :
    (w'.inner.nextRef = w.inner.nextRef ∧ w'.inner.scenes = w.inner.scenes) ∨
      ∃ call : ServerCall, w'.inner = (call.step P w.inner).1 := by
  rcases call_cases h with ⟨n, call, _, _, inner, _⟩ | ⟨n, q, _, _, inner, _⟩ |
    ⟨_, next, scenes, _⟩
  · exact .inr ⟨call, inner⟩
  · exact .inl ⟨by rw [inner], by rw [inner]⟩
  · exact .inl ⟨next, scenes⟩

/-- References are only created and looked up. -/
theorem step_refs (h : w.step P a = some w') :
    w.inner.nextRef ≤ w'.inner.nextRef ∧
      ∀ {id : SceneId} {r : SceneRef}, w'.inner.scene id = some r →
        w.inner.scene id = some r ∨ r < w'.inner.nextRef := by
  rcases registry_cases h with ⟨next, scenes⟩ | ⟨call, inner⟩
  · refine ⟨Nat.le_of_eq next.symm, fun {id r} found => .inl ?_⟩
    rw [ServerInner.scene, scenes] at found
    exact found
  · rw [inner]
    refine ⟨?_, fun {id r} found => ?_⟩
    · rcases call.step_heap P w.inner with ⟨_, next⟩ | ⟨_, _, next⟩ <;> simp [next]
    · rcases ServerCall.step_scenes found with old | ⟨rfl, next⟩
      · exact .inl old
      · exact .inr (by simp [next])

/-- A reference that begins to exist points to a new scene. -/
theorem created_of_step (h : w.step P a = some w') {r : SceneRef} (new : w.inner.nextRef ≤ r)
    (exists_ : r < w'.inner.nextRef) :
    ∃ reg : Registration, w'.inner.heap r = { scene := reg.scene P } := by
  have kept (same : w'.inner.nextRef = w.inner.nextRef) : False :=
    Nat.not_lt.mpr new (same ▸ exists_)
  rcases registry_cases h with ⟨next, _⟩ | ⟨call, inner⟩
  · exact (kept next).elim
  · rcases call.step_heap P w.inner with ⟨_, next⟩ | ⟨reg, heap, next⟩
    · exact (kept (inner ▸ next)).elim
    · have bound : r < w.inner.nextRef + 1 := next ▸ inner ▸ exists_
      obtain rfl : r = w.inner.nextRef := Nat.le_antisymm (Nat.le_of_lt_succ bound) new
      rw [inner, heap]
      exact ⟨reg, Function.update_self ..⟩

/-- A connection after a step refers to scenes that existed before it. -/
theorem Wf.refs_of_step (wf : w.Wf) (h : w.step P a = some w') (c : Nat) :
    (∀ r, (w'.conns c).current = some r → r < w.inner.nextRef) ∧
      ∀ r, (w'.conns c).phase.target = some r → r < w.inner.nextRef := by
  refine conn_step (Q := fun conn => (∀ r, conn.current = some r → r < w.inner.nextRef) ∧
    ∀ r, conn.phase.target = some r → r < w.inner.nextRef) h
    (fun _ => ⟨fun _ => wf.current, fun _ => wf.target⟩)
    ⟨fun _ => wf.current, fun _ h => by cases h⟩ fun amb o _ stepped => ?_
  have refs := Connection.refs_of_step stepped
  refine ⟨fun r found => ?_, fun r found => ?_⟩
  · rcases refs.1 r found with h | h | ⟨id, h⟩
    · exact wf.current h
    · exact wf.target h
    · exact wf.registered h
  · rcases refs.2 r found with h | ⟨id, h⟩
    · exact wf.target h
    · exact wf.registered h

theorem Wf.step (wf : w.Wf) (h : w.step P a = some w') : w'.Wf := by
  obtain ⟨grows, looked⟩ := step_refs h
  have old {r : SceneRef} (lt : r < w.inner.nextRef) : r < w'.inner.nextRef :=
    Nat.lt_of_lt_of_le lt grows
  refine ⟨fun found => ?_, fun found => old ((wf.refs_of_step h _).1 _ found),
    fun found => old ((wf.refs_of_step h _).2 _ found)⟩
  rcases looked found with h | h
  · exact old (wf.registered h)
  · exact h

theorem Wf.link_of_step {c : Nat} {r : SceneRef} (wf : w.Wf) (h : w.step P a = some w')
    (linked : (w'.conns c).link.scene = some r) : r < w.inner.nextRef := by
  rcases Connection.link_scene linked with current | target
  · exact (wf.refs_of_step h c).1 r current
  · exact (wf.refs_of_step h c).2 r target

/-- At most one emission is in progress on the scene `r`. -/
def SerialAt (r : SceneRef) (w : World Text) : Prop := (w.inner.heap r).Serial

instance (r : SceneRef) : DecidablePred (SerialAt r : World Text → Prop) := fun w =>
  inferInstanceAs (Decidable ((w.inner.heap r).calls.length ≤ 1))

/-- The one-emitter invariant of the scene `r`. -/
def SoundAt (r : SceneRef) (w : World Text) : Prop :=
  Sound (w.inner.heap r).scene (w.inner.heap r).inFlight

/-- What one action does to an existing scene with one emitter at a time. -/
theorem emission_cases {r : SceneRef} (exists_ : r < w.inner.nextRef) (serial : SerialAt r w)
    (serial' : SerialAt r w') (h : w.step P a = some w') :
    EmissionStep (w.inner.heap r).scene (w.inner.heap r).inFlight (w'.inner.heap r).scene
        (w'.inner.heap r).inFlight ∨
      ((∃ c, w.Leaves a c r) ∧ (w'.inner.heap r).scene = (w.inner.heap r).scene.advanceSeq ∧
        (w'.inner.heap r).inFlight = (w.inner.heap r).inFlight) := by
  rcases scene_cases h r with same | ⟨rfl, _⟩ | ⟨sa, stepped, leaves, _⟩
  · rw [same]
    exact .inl (.idle rfl rfl rfl rfl)
  · exact absurd exists_ (Nat.lt_irrefl _)
  · by_cases change : sa = .change
    · subst change
      have moved : { w.inner.heap r with scene := (w.inner.heap r).scene.advanceSeq } =
          w'.inner.heap r := Option.some.inj stepped
      exact .inr ⟨leaves rfl, by rw [← moved], by rw [← moved]; rfl⟩
    · exact .inl (SceneCell.emissionStep serial serial' change stepped)

theorem SoundAt.init (init : w.Init) (r : SceneRef) : SoundAt r w := by
  rw [SoundAt, SceneCell.inFlight, init.idle r]
  exact init.sound r

theorem SoundAt.step {r : SceneRef} (sound : SoundAt r w) (serial : SerialAt r w)
    (serial' : SerialAt r w') (h : w.step P a = some w') : SoundAt r w' := by
  rcases scene_cases h r with same | ⟨_, reg, new⟩ | ⟨sa, stepped, _⟩
  · rw [SoundAt, same]
    exact sound
  · obtain ⟨seq, tx, replay⟩ := reg.scene_fresh P
    rw [SoundAt, new]
    exact Sound.fresh seq tx replay
  · by_cases change : sa = .change
    · subst change
      have moved : { w.inner.heap r with scene := (w.inner.heap r).scene.advanceSeq } =
          w'.inner.heap r := Option.some.inj stepped
      rw [SoundAt, ← moved]
      exact Sound.change sound
    · exact Sound.step sound (SceneCell.emissionStep serial serial' change stepped)

/-- At most one emission is in progress on each scene. -/
def Serial (w : World Text) : Prop := ∀ r < w.inner.nextRef, SerialAt r w

instance : DecidablePred (Serial : World Text → Prop) := fun w =>
  inferInstanceAs (Decidable (∀ r < w.inner.nextRef, SerialAt r w))

theorem soundAt_step_of_serial (sound : ∀ r < w.inner.nextRef, SoundAt r w) (serial : w.Serial)
    (serial' : w'.Serial) (h : w.step P a = some w') : ∀ r < w'.inner.nextRef, SoundAt r w' := by
  intro r exists_
  by_cases old : r < w.inner.nextRef
  · exact (sound r old).step (serial r old) (serial' r exists_) h
  · obtain ⟨reg, new⟩ := created_of_step h (Nat.not_lt.mp old) exists_
    obtain ⟨seq, tx, replay⟩ := reg.scene_fresh P
    rw [SoundAt, new]
    exact Sound.fresh seq tx replay

end World
end Lumencast.Server
