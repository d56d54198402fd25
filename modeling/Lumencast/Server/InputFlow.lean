import Lumencast.Server.PublishedOnce
import Lumencast.Server.RateLimit

/-!
# How many inputs a connection brings through

The limiter of a connection is asked once for each input of a role that may send
inputs, and nothing else moves it. So the rate at which a peer makes a server
broadcast is bounded over whole runs, whatever else the peer sends, whatever the
other connections do and whichever scenes the connection comes to.
-/

namespace Lumencast.Server

open Foundation Protocol

variable {Text : Type}

namespace RateBucket

/-- The limiter after a run of calls. -/
def after (b : RateBucket) (calls : List Nat) : RateBucket :=
  calls.foldl (fun b now => (b.allow now).2) b

@[simp] theorem after_nil (b : RateBucket) : b.after [] = b := rfl

@[simp] theorem after_singleton (b : RateBucket) (now : Nat) :
    b.after [now] = (b.allow now).2 := rfl

@[simp] theorem after_append (b : RateBucket) (calls more : List Nat) :
    b.after (calls ++ more) = (b.after calls).after more :=
  List.foldl_append

theorem admitted_singleton (b : RateBucket) (now : Nat) :
    b.admitted [now] = if (b.allow now).1 then [now] else [] := by
  rcases asked : b.allow now with ⟨_ | _, next⟩ <;> simp [admitted, asked]

theorem admitted_append (b : RateBucket) (calls more : List Nat) :
    b.admitted (calls ++ more) = b.admitted calls ++ (b.after calls).admitted more := by
  induction calls generalizing b with
  | nil => rfl
  | cons first calls ih =>
      rw [List.cons_append, admitted, admitted, after, List.foldl_cons]
      rcases b.allow first with ⟨_ | _, next⟩
      · exact ih next
      · exact congrArg (first :: ·) (ih next)

end RateBucket

/-! ## One frame -/

/-- The readings at which a text frame asks the limiter: once, if it is an input of a role that
may send inputs. -/
def asks (T : TextLayer Text) (identity : Identity) (now : Nat) (t : Text) : List Nat :=
  match decodeClient T t with
  | .ok (.input _) => if identity.role.canInput then [now] else []
  | _ => []

/-- A text frame moves the limiter by what it asks. -/
theorem rate_handleTextFrame (T : TextLayer Text) (scene : Scene Text) (identity : Identity)
    (rate : RateBucket) (now : Nat) (t : Text) :
    (handleTextFrame T scene identity rate now t).2 = rate.after (asks T identity now t) := by
  rw [handleTextFrame, asks]
  rcases decoded : decodeClient T t with e | frame
  · cases e <;> rfl
  · cases frame with
    | ping | subscribe | unsubscribe => rfl
    | input input =>
        have nonempty : input.patches ≠ [] := (decodeClient_input decoded).1
        simp only [handleInput, List.isEmpty_iff, nonempty]
        cases identity.role.canInput with
        | false => rfl
        | true =>
            rw [if_pos rfl, RateBucket.after_singleton]
            rcases rate.allow now with ⟨_ | _, rate'⟩
            · rfl
            · cases input.patches.findSome? (checkPatch T scene identity) with
              | some reply => rfl
              | none =>
                  cases parsePairs (writes input.patches) with
                  | error e => rfl
                  | ok patches => cases patches <;> rfl

/-- Only an input that has asked the limiter is let through, and only if it may pass. -/
theorem letThrough_cases (T : TextLayer Text) (scene : Scene Text) (identity : Identity)
    (rate : RateBucket) (now : Nat) (t : Text) :
    letThrough T scene identity rate now t = [] ∨
      (∃ submission, letThrough T scene identity rate now t = [submission]) ∧
        asks T identity now t = [now] ∧ (rate.allow now).1 = true := by
  rw [letThrough, asks]
  rcases decodeClient T t with e | frame
  · exact .inl rfl
  · cases frame with
    | ping | subscribe | unsubscribe => exact .inl rfl
    | input input =>
        dsimp only
        rcases verdict : handleInput T scene identity rate now input with ⟨v, rate'⟩
        cases v with
        | answer | refuse | stop | ignore => exact .inl rfl
        | publish patches cause =>
            obtain ⟨role, _, allowed, _⟩ := handleInput_eq_publish.mp verdict
            exact .inr ⟨⟨_, rfl⟩, if_pos role, congrArg Prod.fst allowed⟩

/-! ## One connection -/

namespace Connection

/-- The readings at which a step of the handler asks the limiter. -/
def asks (T : TextLayer Text) (conn : Connection Text) (amb : Ambient) : List Nat :=
  match conn.phase, conn.current, conn.inbox with
  | .live, some _, .text t :: _ => Server.asks T conn.identity amb.clock.instant t
  | _, _, _ => []

/-- The reading of a step in which the handler lets an input through, to its scene. -/
def admissions (T : TextLayer Text) (inner : ServerInner Text) (conn : Connection Text)
    (amb : Ambient) : List Nat :=
  conn.current.toList.flatMap fun r =>
    (conn.admits T inner amb r).map fun _ => amb.clock.instant

theorem rate_onMessage (T : TextLayer Text) (c : Nat) (q : SceneRef) (scene : Scene Text)
    (conn : Connection Text) (amb : Ambient) (t : Text) :
    (conn.onMessage T c q scene amb (.text t)).conn.rate =
      (handleTextFrame T scene conn.identity conn.rate amb.clock.instant t).2 := by
  rw [onMessage]
  rcases handleTextFrame T scene conn.identity conn.rate amb.clock.instant t with ⟨verdict, rate⟩
  cases verdict <;> rfl

theorem asks_eq_nil_of_phase {T : TextLayer Text} {conn : Connection Text} {amb : Ambient}
    (elsewhere : conn.phase ≠ .live) : conn.asks T amb = [] := by
  rw [asks]
  split
  · next phase _ _ => exact absurd phase elsewhere
  · rfl

/-- A handler step moves the limiter by what it asks, and lets at most that through. -/
theorem asked_step {T : TextLayer Text} {inner : ServerInner Text} {c : Nat}
    {conn : Connection Text} {amb : Ambient} {o : Outcome Text}
    (h : conn.step T inner c amb = some o) :
    o.conn.rate = conn.rate.after (conn.asks T amb) ∧
      (conn.admissions T inner amb).Sublist (conn.rate.admitted (conn.asks T amb)) := by
  by_cases live : conn.phase = .live
  · simp only [step, live] at h
    obtain ⟨q, current, rfl⟩ := Option.map_eq_some_iff.mp h
    rcases inbox : conn.inbox with _ | ⟨m, rest⟩
    · have idle : conn.asks T amb = [] ∧ conn.admissions T inner amb = [] := by
        simp [asks, admissions, admits, live, current, inbox]
      rw [idle.1, idle.2]
      exact ⟨rfl, List.nil_sublist _⟩
    · cases m with
      | text t =>
          have asked : conn.asks T amb = Server.asks T conn.identity amb.clock.instant t := by
            simp [asks, live, current, inbox]
          have shown : conn.admissions T inner amb =
              (letThrough T (inner.heap q).scene conn.identity conn.rate amb.clock.instant t).map
                fun _ => amb.clock.instant := by
            simp [admissions, admits, live, current, inbox]
          refine ⟨(rate_onMessage ..).trans (asked ▸ rate_handleTextFrame ..), ?_⟩
          rw [shown, asked]
          rcases letThrough_cases T (inner.heap q).scene conn.identity conn.rate
            amb.clock.instant t with none_ | ⟨⟨submission, one⟩, once, passes⟩
          · rw [none_]
            exact List.nil_sublist _
          · rw [one, once, RateBucket.admitted_singleton, if_pos passes]
            exact .refl _
      | binary | ping | pong | close =>
          have other : conn.asks T amb = [] ∧ conn.admissions T inner amb = [] := by
            simp [asks, admissions, admits, live, current, inbox]
          rw [other.1, other.2]
          exact ⟨rfl, List.nil_sublist _⟩
  · have nothing : conn.admissions T inner amb = [] := by
      refine List.flatMap_eq_nil_iff.mpr fun r _ => ?_
      rw [admits_eq_nil_of_phase live]
      rfl
    rw [nothing, asks_eq_nil_of_phase live]
    refine ⟨?_, List.nil_sublist _⟩
    cases transition_of_step h with
    | message phase | pollEvents phase => exact absurd phase live
    | _ => rfl

end Connection

/-! ## Whole runs -/

/-- The clock readings of the handler of `c`. -/
def Action.readings (c : Nat) : Action Text → List Nat
  | .handler d amb => if d = c then [amb.clock.instant] else []
  | .scene .. | .request .. | .serve _ | .receive .. | .hangup _ => []

namespace World

/-- The readings at which inputs of the connection `c` ask its limiter in an action. -/
def asks (P : Platform Text) (c : Nat) (w : World Text) : Action Text → List Nat
  | .handler d amb => if d = c then (w.conns c).asks P.toTextLayer amb else []
  | .scene .. | .request .. | .serve _ | .receive .. | .hangup _ => []

/-- The reading of an action in which the handler of `c` lets an input through. -/
def admissions (P : Platform Text) (c : Nat) (w : World Text) : Action Text → List Nat
  | .handler d amb => if d = c then (w.conns c).admissions P.toTextLayer w.inner amb else []
  | .scene .. | .request .. | .serve _ | .receive .. | .hangup _ => []

/-- What inputs of the connection `c` ask and bring through in an action. -/
def handled (P : Platform Text) (c : Nat) (w : World Text) (a : Action Text) :
    List (List Nat × List Nat) :=
  [(w.asks P c a, w.admissions P c a)]

/-- The limiter of a connection has been asked as the log says, and has let pass what was let
through. -/
structure Limited (b : RateBucket) (conn : Connection Text) (log : List (List Nat × List Nat)) :
    Prop where
  rate : conn.rate = b.after (log.flatMap Prod.fst)
  passed : (log.flatMap Prod.snd).Sublist (b.admitted (log.flatMap Prod.fst))

variable {P : Platform Text} {w w' : World Text} {a : Action Text} {c : Nat} {b : RateBucket}
  {log : List (List Nat × List Nat)}

/-- No action of somebody else moves the limiter. -/
theorem rate_step (h : w.step P a = some w') :
    (w'.conns c).rate = (w.conns c).rate.after (w.asks P c a) ∧
      (w.admissions P c a).Sublist ((w.conns c).rate.admitted (w.asks P c a)) := by
  cases a with
  | handler d amb =>
      obtain ⟨o, stepped, conns, _⟩ := step_handler h
      by_cases same : d = c
      · subst same
        rw [conns, Function.update_self, asks, admissions, if_pos rfl, if_pos rfl]
        exact Connection.asked_step stepped
      · rw [conns, Function.update_of_ne (Ne.symm same), asks, admissions, if_neg same,
          if_neg same]
        exact ⟨rfl, List.nil_sublist _⟩
  | scene | request | serve | receive | hangup =>
      refine ⟨?_, List.nil_sublist _⟩
      rcases conn_cases h c with same | ⟨m, _, same⟩ | ⟨_, same⟩ | ⟨_, _, ⟨⟩, _⟩
      · rw [same]
        rfl
      · rw [same]
        rfl
      · rw [same]
        rfl

theorem Limited.step (limited : Limited b (w.conns c) log) (h : w.step P a = some w') :
    Limited b (w'.conns c) (log ++ w.handled P c a) := by
  obtain ⟨moved, admitted⟩ := rate_step (c := c) h
  constructor
  · rw [List.flatMap_append, handled, List.flatMap_singleton, moved, limited.rate,
      RateBucket.after_append]
  · rw [List.flatMap_append, List.flatMap_append, handled, List.flatMap_singleton,
      List.flatMap_singleton, RateBucket.admitted_append, ← limited.rate]
    exact limited.passed.append admitted

/-- The limiter is asked at readings of the handler. -/
theorem asks_sublist (w : World Text) (a : Action Text) :
    (w.asks P c a).Sublist (a.readings c) := by
  cases a with
  | handler d amb =>
      rw [asks, Action.readings]
      split
      · rw [Connection.asks]
        split
        · rw [Server.asks]
          split
          · split
            · exact .refl _
            · exact List.nil_sublist _
          · exact List.nil_sublist _
        · exact List.nil_sublist _
      · exact .refl _
  | scene | request | serve | receive | hangup => exact .refl _

end World

/-- In every run, the limiter of a connection is moved by the inputs of that connection and by
nothing else, and only those that it lets pass come through to a scene. With a monotonic clock,
no second holds more than twice the limit of them. -/
theorem flood_bounded {P : Platform Text} {start stop : World Text}
    {schedule : List (Action Text)} {c limit opened : Nat} (positive : 0 < limit)
    (fresh : (start.conns c).rate = .new limit opened)
    (monotonic : (schedule.flatMap (Action.readings c)).Pairwise (· ≤ ·))
    (reach : run (World.step P) start schedule = some stop) :
    let calls := observed (World.step P) (World.asks P c) start schedule
    let passed := observed (World.step P) (World.admissions P c) start schedule
    (stop.conns c).rate = (RateBucket.new limit opened).after calls ∧
      passed.Sublist ((RateBucket.new limit opened).admitted calls) ∧
      ∀ t, passed.countP (fun now => t ≤ now ∧ now < t + second) ≤ 2 * limit := by
  intro calls passed
  have begins : World.Limited (.new limit opened) (start.conns c) [] := ⟨fresh, .slnil⟩
  have limited : World.Limited (.new limit opened) (stop.conns c)
      ([] ++ observed (World.step P) (World.handled P c) start schedule) :=
    observed_invariant (I := fun w log => World.Limited (.new limit opened) (w.conns c) log)
      (Q := fun _ _ => True) (fun _ _ _ _ limited _ h => limited.step h) begins
      (Along.of_forall_mem fun _ _ _ => trivial) reach
  obtain ⟨rate, admitted⟩ := limited
  simp only [List.nil_append, flatMap_observed, World.handled, List.flatMap_singleton]
    at rate admitted
  have sorted : calls.Pairwise (· ≤ ·) :=
    monotonic.sublist (observed_sublist fun w a => World.asks_sublist w a)
  exact ⟨rate, admitted, fun t => Nat.le_trans admitted.countP_le
    (RateBucket.admitted_le_two_mul positive opened sorted t)⟩

/-- The two scenes, with connections that may send one input a second. -/
private def narrowScenes : World Value :=
  { twoScenes with conns := fun _ => { rate := RateBucket.new 1 0 } }

private def lampInputMessage : Action Value :=
  .receive 0 (.text (.object [
    ("patches", .array [.object [("path", .string "__inputs.lamp"), ("value", .bool true)]]),
    ("type", .string "input"), ("v", .number (.posInt 1))]))

/-- Two inputs at once, of which the limiter lets the first one pass. -/
private def twoInputs : List (Action Value) :=
  connect 0 ++ [lampInputMessage, lampInputMessage, operatorStep 0] ++
    List.replicate 4 (.scene 0 (.progress (.handler 0))) ++ [operatorStep 0]

theorem flood_bounded_twoInputs :
    ∃ stop, run (World.step valuePlatform) narrowScenes twoInputs = some stop ∧
      (stop.conns 0).inbox = [] ∧
      (let calls := observed (World.step valuePlatform) (World.asks valuePlatform 0) narrowScenes
        twoInputs
       let passed := observed (World.step valuePlatform) (World.admissions valuePlatform 0)
        narrowScenes twoInputs
       calls = [0, 0] ∧ passed = [0] ∧ (stop.conns 0).rate = (RateBucket.new 1 0).after calls ∧
        passed.countP (fun now => 0 ≤ now ∧ now < 0 + second) ≤ 2 * 1) := by
  have ends : (run (World.step valuePlatform) narrowScenes twoInputs).any (fun stop =>
      (stop.conns 0).inbox = []) = true := by
    decide
  obtain ⟨stop, reach, drained⟩ := exists_run_of_any ends
  obtain ⟨rate, _, bounded⟩ := flood_bounded (by decide)
    (rfl : (narrowScenes.conns 0).rate = .new 1 0) (by decide) reach
  exact ⟨stop, reach, drained, by decide, by decide, rate, bounded 0⟩

end Lumencast.Server
