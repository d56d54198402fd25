import Lumencast.Conformance.Player

/-!
# The conformance harness

The harness plays the selected scenarios one after the other on one driver and counts
the outcomes; the command line turns the report into an exit code. A scenario whose
run fails is followed by a reset whose result nobody looks at.

Nothing is undone between two scenarios beyond that, so whether the outcomes depend on
the order is up to the driver. `Respects` and `Forgets` are what is needed of it: it
answers alike in states that are related, and a setup relates any two states.
-/

namespace Lumencast.Conformance

open Foundation Protocol

variable {Text σ : Type}

structure Config where
  tags : List Tag := []
  scenarioFilter : Option String := none
  tokens : Std.ExtTreeMap String String := ∅

structure Outcome where
  name : String
  passed : Bool
  skipped : Bool
  message : Option String
  deriving DecidableEq

structure Report where
  total : Nat
  passed : Nat
  skipped : Nat
  outcomes : List Outcome
  deriving DecidableEq

def Report.allPassed (report : Report) : Bool :=
  report.passed + report.skipped == report.total

def filterScenarios (config : Config) (scenarios : List Scenario) : List Scenario :=
  (scenarios.filter fun s => config.tags.isEmpty || decide (s.tag ∈ config.tags)).filter fun s =>
    config.scenarioFilter.all fun name => s.name = name

def skippedOutcome (scenario : Scenario) : Outcome where
  name := scenario.name
  passed := false
  skipped := true
  message := some "runtime-targeted scenario, harness drives a server"

def passedOutcome (scenario : Scenario) : Outcome where
  name := scenario.name
  passed := true
  skipped := false
  message := none

def failedOutcome (scenario : Scenario) (message : String) : Outcome where
  name := scenario.name
  passed := false
  skipped := false
  message := some message

section

variable (P : Platform Text) (R : Rendering Text) (d : Driver Text σ)

/-- The loop over the scenarios, with the counters and outcomes so far. -/
def runAll (tokens : Std.ExtTreeMap String String) : List Scenario → Report → σ → Report × σ
  | [], report, s => (report, s)
  | scenario :: rest, report, s =>
      if scenario.target = .runtime then
        runAll tokens rest { report with
          skipped := report.skipped + 1
          outcomes := report.outcomes ++ [skippedOutcome scenario] } s
      else
        match Effect.exec (Player.runScenario P R d scenario tokens) s with
        | (.ok (), s) => runAll tokens rest { report with
            passed := report.passed + 1
            outcomes := report.outcomes ++ [passedOutcome scenario] } s
        | (.error e, s) => runAll tokens rest { report with
            outcomes := report.outcomes ++ [failedOutcome scenario (e.display P.toTextLayer R)] }
            (Effect.exec (ControlClient.reset P.toTextLayer d.http) s).2

def run (config : Config) (scenarios : List Scenario) (s : σ) : Report × σ :=
  let scenarios := filterScenarios config scenarios
  runAll P R d config.tokens scenarios
    { total := scenarios.length, passed := 0, skipped := 0, outcomes := [] } s

/-- The exit code of `lumencast conformance`, once the harness has run. -/
def exitCode (report : Report) : Nat :=
  if report.total = 0 then 2 else if report.allPassed then 0 else 1

/-- The outcome of a scenario that is played from the state `s`. -/
def outcome (tokens : Std.ExtTreeMap String String) (s : σ) (scenario : Scenario) : Outcome :=
  if scenario.target = .runtime then skippedOutcome scenario
  else
    match (Effect.exec (Player.runScenario P R d scenario tokens) s).1 with
    | .ok () => passedOutcome scenario
    | .error e => failedOutcome scenario (e.display P.toTextLayer R)

end

/-- A report that counts its outcomes. -/
def Report.of (outcomes : List Outcome) : Report where
  total := outcomes.length
  passed := outcomes.countP (·.passed)
  skipped := outcomes.countP (·.skipped)
  outcomes := outcomes

/-- The driver answers alike in related states, and leads to related states. -/
structure Driver.Respects (d : Driver Text σ) (R : σ → σ → Prop) : Prop where
  http : ∀ req, Effect.Agree R (d.http req) (d.http req)
  connect : ∀ url, Effect.Agree R (d.connect url) (d.connect url)
  send : ∀ t, Effect.Agree R (d.send t) (d.send t)
  next : ∀ s t, R s t → (d.next s).1 = (d.next t).1 ∧ R (d.next s).2 (d.next t).2
  nextWithin : ∀ timeout s t, R s t → (d.nextWithin timeout s).1 = (d.nextWithin timeout t).1 ∧
    R (d.nextWithin timeout s).2 (d.nextWithin timeout t).2
  dropSocket : ∀ s t, R s t → R (d.dropSocket s) (d.dropSocket t)

/-- The result of a setup, and what can be told of the state after it, do not depend on what
was before. -/
def Driver.Forgets (T : TextLayer Text) (d : Driver Text σ) (R : σ → σ → Prop) : Prop :=
  ∀ body s t, (Effect.exec (ControlClient.setup T d.http body) s).1 =
      (Effect.exec (ControlClient.setup T d.http body) t).1 ∧
    R (Effect.exec (ControlClient.setup T d.http body) s).2
      (Effect.exec (ControlClient.setup T d.http body) t).2

namespace Driver.Respects

variable {P : Platform Text} {rendering : Rendering Text} {d : Driver Text σ} {R : σ → σ → Prop}
  {subs : Substitutions} {idx : Nat}

open Effect

theorem send_ (respects : d.Respects R) (method : Server.HttpMethod) (path : String)
    (body : Option Value) : Agree R (ControlClient.send P.toTextLayer d.http method path body)
      (ControlClient.send P.toTextLayer d.http method path body) :=
  ((respects.http _).mapError _).bind fun _ => .ite (.pure _) (.throw _)

theorem json {α : Type} (ofValue : Value → Except JsonError α) (resp : Server.HttpResponse Text) :
    Agree R (ControlClient.json P.toTextLayer ofValue resp : Effect σ (ControlError Text) α)
      (ControlClient.json P.toTextLayer ofValue resp) := by
  unfold ControlClient.json
  split
  · exact .pure _
  · exact .throw _

theorem check {α : Type} (x : Except String α) :
    Agree R (Player.check idx x : Effect σ (PlayerError Text) α) (Player.check idx x) := by
  cases x with
  | ok a => exact .pure a
  | error message => exact .throw _

theorem readTextFrame (respects : d.Respects R) (timeout : Nat) :
    Agree R (Player.readTextFrame P rendering d idx timeout)
      (Player.readTextFrame P rendering d idx timeout) := by
  refine .bind (.total (respects.nextWithin timeout)) fun item => ?_
  rcases item with _ | _ | e | m
  · exact .throw _
  · exact .throw _
  · exact .throw _
  · cases m with
    | text t =>
        dsimp only
        split
        · exact .pure _
        · exact .throw _
    | binary | ping | pong | close | frame => exact .throw _

theorem receiveFrame (respects : d.Respects R) (mismatch : Value → String → String)
    (expected : Value) (shadow : State) :
    Agree R (Player.receiveFrame P rendering d idx mismatch expected shadow)
      (Player.receiveFrame P rendering d idx mismatch expected shadow) :=
  .bind (respects.readTextFrame _) fun _ => .bind (check _) fun _ => .pure _

theorem closeWithReason (respects : d.Respects R) (want : String) :
    Agree R (Player.closeWithReason rendering d idx want)
      (Player.closeWithReason rendering d idx want) := by
  refine .bind (.total respects.next) fun item => ?_
  rcases item with _ | e | m
  · exact .throw _
  · exact .throw _
  · cases m with
    | close frame =>
        cases frame with
        | none => exact .throw _
        | some frame => exact check _
    | text | binary | ping | pong | frame => exact .throw _

theorem runStep (respects : d.Respects R) (step : Scenario.Step) (shadow : State) :
    Agree R (Player.runStep P rendering d subs idx step shadow)
      (Player.runStep P rendering d subs idx step shadow) := by
  cases step with
  | clientSends frame => exact .bind ((respects.send _).mapError _) fun _ => .pure _
  | serverSends frame => exact respects.receiveFrame _ _ _
  | expectRuntimeState state => exact .bind (check _) fun _ => .pure _
  | expectServerState state =>
      have asks : Agree R (ControlClient.state P.toTextLayer d.http)
          (ControlClient.state P.toTextLayer d.http) :=
        .bind (respects.send_ _ _ _) fun _ => json _ _
      exact .bind (asks.mapError _) fun _ => .bind (check _) fun _ => .pure _
  | expectNoFrameFor durationMs =>
      exact .bind (.total (respects.nextWithin _)) fun _ => .bind (check _) fun _ => .pure _
  | expectClientAction action =>
      exact .ite (.bind (respects.closeWithReason _) fun _ => .pure _)
        (.ite (.pure _) (.throw _))
  | serverEmits frame =>
      refine .bind (check _) fun pairs => ?_
      have emits : Agree R (ControlClient.emit P.toTextLayer d.http pairs)
          (ControlClient.emit P.toTextLayer d.http pairs) :=
        .bind (respects.send_ _ _ _) fun _ => .pure _
      exact .bind (emits.mapError _) fun _ => respects.receiveFrame _ _ _
  | unsupported kind => exact .throw _

theorem runSteps (respects : d.Respects R) (steps : List Scenario.Step) (shadow : State) :
    Agree R (Player.runSteps P rendering d subs idx steps shadow)
      (Player.runSteps P rendering d subs idx steps shadow) := by
  induction steps generalizing idx shadow with
  | nil => exact .pure _
  | cons step steps ih => exact .bind (respects.runStep step shadow) fun shadow => ih shadow

/-- From any two states a scenario has the same result. -/
theorem runScenario (respects : d.Respects R) (forgets : d.Forgets P.toTextLayer R)
    (scenario : Scenario) (tokens : Std.ExtTreeMap String String) (s t : σ) :
    (exec (Player.runScenario P rendering d scenario tokens) s).1 =
      (exec (Player.runScenario P rendering d scenario tokens) t).1 := by
  have reset : Agree R (ControlClient.reset P.toTextLayer d.http)
      (ControlClient.reset P.toTextLayer d.http) :=
    .bind (respects.send_ _ _ _) fun _ => .pure _
  have opens : ∀ url, Agree R (Player.openWs d url) (Player.openWs d url) := fun url =>
    .ite ((respects.connect url).mapError _) (.throw _)
  obtain ⟨same, after⟩ := forgets (scenario.setupRequest P tokens) s t
  let setUp : Effect σ (PlayerError Text) SetupResponse :=
    (ControlClient.setup P.toTextLayer d.http (scenario.setupRequest P tokens)).mapError .control
  have first : (exec setUp s).1 = (exec setUp t).1 ∧ R (exec setUp s).2 (exec setUp t).2 :=
    ⟨congrArg (Except.mapError PlayerError.control) same, after⟩
  unfold Player.runScenario
  refine (Agree.bind_from first fun response => .bind (opens response.wsUrl) fun _ => ?_).1
  refine .finally_ ?_ respects.dropSocket
  exact .bind (respects.runSteps _ _) fun _ => reset.mapError _

end Driver.Respects

/-! ## Reports -/

section

variable {P : Platform Text} {rendering : Rendering Text} {d : Driver Text σ}

/-- A report with more outcomes at its end. -/
def Report.append (report : Report) (outcomes : List Outcome) : Report where
  total := report.total
  passed := report.passed + outcomes.countP (·.passed)
  skipped := report.skipped + outcomes.countP (·.skipped)
  outcomes := report.outcomes ++ outcomes

theorem Report.append_cons (report : Report) (o : Outcome) (outcomes : List Outcome) :
    report.append (o :: outcomes) = (report.append [o]).append outcomes := by
  simp only [append, List.countP_cons, List.countP_nil, List.append_assoc, List.singleton_append]
  congr 1 <;> omega

/-- If the outcome of a scenario does not depend on the state, the loop adds the outcomes in
their order. -/
theorem runAll_eq {tokens : Std.ExtTreeMap String String} {s₀ : σ}
    (alike : ∀ scenario s, outcome P rendering d tokens s scenario =
      outcome P rendering d tokens s₀ scenario)
    (scenarios : List Scenario) (report : Report) (s : σ) :
    (runAll P rendering d tokens scenarios report s).1 =
      report.append (scenarios.map (outcome P rendering d tokens s₀)) := by
  induction scenarios generalizing report s with
  | nil => simp [runAll, Report.append]
  | cons scenario rest ih =>
      rw [List.map_cons, Report.append_cons, ← alike scenario s, runAll, outcome]
      split
      · rw [ih]
        rfl
      · cases played : Effect.exec (Player.runScenario P rendering d scenario tokens) s with
        | mk result s' =>
            cases result with
            | ok u =>
                rw [ih]
                rfl
            | error e =>
                rw [ih]
                rfl

theorem outcome_alike {R : σ → σ → Prop} (respects : d.Respects R)
    (forgets : d.Forgets P.toTextLayer R) (tokens : Std.ExtTreeMap String String)
    (scenario : Scenario) (s s₀ : σ) :
    outcome P rendering d tokens s scenario = outcome P rendering d tokens s₀ scenario := by
  unfold outcome
  rw [respects.runScenario forgets scenario tokens s s₀]

theorem run_eq {R : σ → σ → Prop} (respects : d.Respects R)
    (forgets : d.Forgets P.toTextLayer R) (config : Config) (scenarios : List Scenario)
    (s s₀ : σ) :
    (run P rendering d config scenarios s).1 =
      .of ((filterScenarios config scenarios).map (outcome P rendering d config.tokens s₀)) := by
  rw [run, runAll_eq fun scenario s => outcome_alike respects forgets config.tokens scenario s s₀]
  simp [Report.append, Report.of]

theorem countP_add_countP {α : Type} {p q : α → Bool} {as : List α}
    (exclusive : ∀ a ∈ as, ¬(p a = true ∧ q a = true)) :
    as.countP p + as.countP q = as.countP fun a => p a || q a := by
  induction as with
  | nil => rfl
  | cons a as ih =>
      have rest := ih fun b member => exclusive b (List.mem_cons_of_mem a member)
      have one := exclusive a List.mem_cons_self
      simp only [List.countP_cons]
      cases pa : p a <;> cases qa : q a
      · simpa using rest
      · simp only [Bool.or_true, Bool.false_eq_true, if_false, if_true]
        omega
      · simp only [Bool.or_false, Bool.false_eq_true, if_false, if_true]
        omega
      · exact absurd ⟨pa, qa⟩ one

/-- The counters add up to the total when every outcome is a pass or a skip. -/
theorem allPassed_of_iff {outcomes : List Outcome}
    (exclusive : ∀ o ∈ outcomes, ¬(o.passed = true ∧ o.skipped = true)) :
    (Report.of outcomes).allPassed = true ↔
      ∀ o ∈ outcomes, o.passed = true ∨ o.skipped = true := by
  rw [Report.allPassed, beq_iff_eq, Report.of, countP_add_countP exclusive, List.countP_eq_length]
  simp

theorem outcome_exclusive (tokens : Std.ExtTreeMap String String) (s : σ) (scenario : Scenario) :
    ¬((outcome P rendering d tokens s scenario).passed = true ∧
      (outcome P rendering d tokens s scenario).skipped = true) := by
  unfold outcome
  split
  · exact fun both => nomatch both.1
  · split
    · exact fun both => nomatch both.2
    · exact fun both => nomatch both.1

theorem outcome_good_iff (tokens : Std.ExtTreeMap String String) (s : σ) (scenario : Scenario) :
    ((outcome P rendering d tokens s scenario).passed = true ∨
        (outcome P rendering d tokens s scenario).skipped = true) ↔
      scenario.target = .runtime ∨
        (Effect.exec (Player.runScenario P rendering d scenario tokens) s).1 = .ok () := by
  unfold outcome
  split
  · next runtime => exact ⟨fun _ => .inl runtime, fun _ => .inr rfl⟩
  · next driven =>
    cases (Effect.exec (Player.runScenario P rendering d scenario tokens) s).1 with
    | ok u => exact ⟨fun _ => .inr rfl, fun _ => .inl rfl⟩
    | error e => simp [failedOutcome, driven]

/-- On a driver whose setup forgets, each selected scenario has the outcome that it has on its
own from any other state. The command succeeds exactly when a scenario is selected, and each
selected one is for the runtime or passes on its own. -/
theorem run_isolates {R : σ → σ → Prop} (respects : d.Respects R)
    (forgets : d.Forgets P.toTextLayer R) (config : Config) (scenarios : List Scenario)
    (s s₀ : σ) :
    let selected := filterScenarios config scenarios
    let report := (run P rendering d config scenarios s).1
    report = .of (selected.map (outcome P rendering d config.tokens s₀)) ∧
      (exitCode report = 0 ↔ selected ≠ [] ∧ ∀ scenario ∈ selected, scenario.target = .runtime ∨
        (Effect.exec (Player.runScenario P rendering d scenario config.tokens) s₀).1 =
          .ok ()) := by
  intro selected report
  have counted : report = .of (selected.map (outcome P rendering d config.tokens s₀)) :=
    run_eq respects forgets config scenarios s s₀
  have exclusive : ∀ o ∈ selected.map (outcome P rendering d config.tokens s₀),
      ¬(o.passed = true ∧ o.skipped = true) :=
    List.forall_mem_map.mpr fun scenario _ => outcome_exclusive config.tokens s₀ scenario
  refine ⟨counted, ?_⟩
  rw [counted, exitCode]
  have total : (Report.of (selected.map (outcome P rendering d config.tokens s₀))).total =
      selected.length := List.length_map _
  have all := allPassed_of_iff exclusive
  rw [List.forall_mem_map] at all
  simp only [outcome_good_iff] at all
  rw [total, ← all]
  by_cases empty : selected = []
  · simp [empty]
  · by_cases passed : (Report.of (selected.map
        (outcome P rendering d config.tokens s₀))).allPassed = true <;> simp [empty, passed]

end
end Lumencast.Conformance
