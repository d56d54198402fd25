import Lumencast.Conformance.Player

/-!
# What a passing scenario means

A conversation is the sequence of what a harness asks and hears. `Passes` says which
turns belong to a step: which frame may be heard where one is expected, and what the
shadow or the server must hold where a state is. It knows no driver.

A driver takes part in a conversation when it answers each turn as it says. A scenario
passes exactly when the driver takes part in a conversation of the scenario.
-/

namespace Lumencast.Conformance

open Foundation Protocol

variable {Text σ : Type}

/-- One exchange between the player and what it drives. -/
inductive Turn (Text : Type) where
  /-- A call of the control plane returns. -/
  | called (c : ControlCall) (a : Answer)
  | connected (url : String)
  | sent (t : Text)
  | heard (t : Text)
  /-- No data arrives for this long. -/
  | quiet (durationMs : Nat)
  | closed (frame : CloseFrame)

/-- Every entry of the expected state is in the actual one, with its placeholders replaced. -/
def Holds (subs : Substitutions) (expected actual : State) : Prop :=
  ∀ (k : String) (v : Value), expected[k]? = some v → actual[k]? = some (subs.apply v)

/-- The pairs that a `server-emits` step asks the server to emit. -/
def EmitsPairs (subs : Substitutions) (frame : Value) (pairs : List (String × Value)) : Prop :=
  member frame "type" = some (.string "delta") ∧
    ∃ patches, member frame "patches" = some (.array patches) ∧
      List.Forall₂ (fun patch pair => member patch "path" = some (.string pair.1) ∧
        ∃ v, member patch "value" = some v ∧ pair.2 = subs.apply v) patches pairs

section

variable (P : Platform Text) (R : Rendering Text) (subs : Substitutions)

/-- A frame that may be heard where another one is expected, with the shadow after it. -/
def Hears (frame : Value) (t : Text) (shadow shadow' : State) : Prop :=
  ∃ v, P.fromText t = .ok v ∧ Matches R.display (subs.apply frame) v ∧
    shadow' = updateShadowFromFrame v shadow

/-- The turns of a step that passes, with the shadow before and after it. -/
inductive Passes : Scenario.Step → State → List (Turn Text) → State → Prop
  | clientSends (frame : Value) (shadow : State) :
      Passes (.clientSends frame) shadow [.sent (P.toText (subs.apply frame))] shadow
  | serverSends {frame : Value} {t : Text} {shadow shadow' : State}
      (hears : Hears P R subs frame t shadow shadow') :
      Passes (.serverSends frame) shadow [.heard t] shadow'
  | expectRuntimeState {state shadow : State} (holds : Holds subs state shadow) :
      Passes (.expectRuntimeState state) shadow [] shadow
  | expectServerState {state shadow : State} {resp : StateResponse}
      (holds : Holds subs state resp.state) :
      Passes (.expectServerState state) shadow [.called .state (.state resp)] shadow
  | expectNoFrameFor (durationMs : Nat) (shadow : State) :
      Passes (.expectNoFrameFor durationMs) shadow [.quiet durationMs] shadow
  | closeWithReason {action : ClientAction} {shadow : State} {frame : CloseFrame}
      (named : action.action = "close-with-reason")
      (wanted : Player.wantedReason subs action = "$ANY" ∨
        (Player.wantedReason subs action).toList <:+: frame.reason.toList) :
      Passes (.expectClientAction action) shadow [.closed frame] shadow
  | reconnect {action : ClientAction} {shadow : State} (named : action.action = "reconnect") :
      Passes (.expectClientAction action) shadow [] shadow
  | serverEmits {frame : Value} {pairs : List (String × Value)} {t : Text} {shadow shadow' : State}
      (emits : EmitsPairs subs frame pairs) (hears : Hears P R subs frame t shadow shadow') :
      Passes (.serverEmits frame) shadow [.called (.emit pairs) .done, .heard t] shadow'

/-- The steps of a scenario in order. -/
inductive PassesAll : List Scenario.Step → State → List (Turn Text) → State → Prop
  | nil (shadow : State) : PassesAll [] shadow [] shadow
  | cons {step : Scenario.Step} {steps : List Scenario.Step} {turns rest : List (Turn Text)}
      {shadow shadow' shadow'' : State} (first : Passes P R subs step shadow turns shadow')
      (later : PassesAll steps shadow' rest shadow'') :
      PassesAll (step :: steps) shadow (turns ++ rest) shadow''

end

/-- The conversations of a scenario: it is set up, its steps pass, and it is reset. -/
inductive Conversation (P : Platform Text) (R : Rendering Text) (scenario : Scenario)
    (tokens : Std.ExtTreeMap String String) : List (Turn Text) → Prop
  | mk {response : SetupResponse} {turns : List (Turn Text)} {shadow : State}
      (passes : PassesAll P R (Substitutions.new tokens (scenario.bundleHashes P)) scenario.steps ∅
        turns shadow) :
      Conversation P R scenario tokens
        (.called (.setup (scenario.setupRequest P tokens)) (.setup response) ::
          .connected response.wsUrl :: (turns ++ [.called .reset .done]))

/-! ## Taking part -/

/-- No data came: the time is over, the stream has ended, or it was closed in order. -/
def Quiet : Option (SocketItem Text) → Prop
  | none | some none => True
  | some (some (.ok (.close frame))) => frame.elim 1005 (·.code) ∈ [1000, 1001, 1005]
  | some (some _) => False

/-- The driver answers a turn as it says, and goes from `s` to `t`. -/
def Answers (T : TextLayer Text) (d : Driver Text σ) (s t : σ) : Turn Text → Prop
  | .called c a => Effect.exec (ControlClient.call T d.http c) s = (.ok a, t)
  | .connected url => d.urlParses url = true ∧ Effect.exec (d.connect url) s = (.ok (), t)
  | .sent text => Effect.exec (d.send text) s = (.ok (), t)
  | .heard text => d.nextWithin 5000 s = (some (some (.ok (.text text))), t)
  | .quiet durationMs => ∃ item, d.nextWithin durationMs s = (item, t) ∧ Quiet item
  | .closed frame => d.next s = (some (.ok (.close (some frame))), t)

def TakesPart (T : TextLayer Text) (d : Driver Text σ) (s t : σ) : List (Turn Text) → Prop
  | [] => s = t
  | turn :: turns => ∃ r, Answers T d s r turn ∧ TakesPart T d r t turns

variable {P : Platform Text} {R : Rendering Text} {d : Driver Text σ} {subs : Substitutions}
  {T : TextLayer Text} {s t : σ}

theorem takesPart_append {turns rest : List (Turn Text)} :
    TakesPart T d s t (turns ++ rest) ↔ ∃ r, TakesPart T d s r turns ∧ TakesPart T d r t rest := by
  induction turns generalizing s with
  | nil => simp [TakesPart]
  | cons turn turns ih =>
      simp only [List.cons_append, TakesPart, ih]
      constructor
      · rintro ⟨m, answers, r, first, later⟩
        exact ⟨r, ⟨m, answers, first⟩, later⟩
      · rintro ⟨r, ⟨m, answers, first⟩, later⟩
        exact ⟨m, answers, r, first, later⟩

theorem takesPart_singleton {turn : Turn Text} :
    TakesPart T d s t [turn] ↔ Answers T d s t turn := by
  simp [TakesPart]

namespace Player

theorem exec_check_eq_ok {α : Type} {idx : Nat} {x : Except String α} {a : α} :
    Effect.exec (check idx x : Effect σ (PlayerError Text) α) s = (.ok a, t) ↔
      x = .ok a ∧ s = t := by
  cases x <;> simp [check]

theorem compareState_eq_ok {kind : String} {actual : State} {entries : List (String × Value)} :
    compareState R kind actual entries = .ok () ↔ ∀ e ∈ entries, actual[e.1]? = some e.2 := by
  induction entries with
  | nil => simp [compareState]
  | cons e entries ih =>
      obtain ⟨k, v⟩ := e
      rw [compareState, List.forall_mem_cons]
      cases actual[k]? with
      | none => simp
      | some found =>
          by_cases same : found = v <;> simp [same, ih]

theorem compareState_applyToMap {kind : String} {expected actual : State} :
    compareState R kind actual (applyToMap subs expected) = .ok () ↔
      Holds subs expected actual := by
  rw [compareState_eq_ok, applyToMap, List.forall_mem_map]
  constructor
  · intro each k v known
    exact each (k, v) (Std.ExtTreeMap.mem_toList_iff_getElem?_eq_some.mpr known)
  · intro holds e listed
    exact holds e.1 e.2 (Std.ExtTreeMap.mem_toList_iff_getElem?_eq_some.mp listed)

theorem asStr_eq_some {v : Value} {s : String} : v.asStr = some s ↔ v = .string s := by
  cases v <;> simp [Value.asStr]

theorem emitPair_eq_ok {patch : Value} {pair : String × Value} :
    emitPair subs patch = .ok pair ↔ member patch "path" = some (.string pair.1) ∧
      ∃ v, member patch "value" = some v ∧ pair.2 = subs.apply v := by
  obtain ⟨path, value⟩ := pair
  have named : (member patch "path").bind Value.asStr = some path ↔
      member patch "path" = some (.string path) := by
    simp [Option.bind_eq_some_iff, asStr_eq_some]
  rw [← named, emitPair]
  cases (member patch "path").bind Value.asStr with
  | none => simp
  | some path' =>
      cases member patch "value" with
      | none => simp
      | some v => simp [eq_comm]

theorem emitPairs_eq_ok {frame : Value} {pairs : List (String × Value)} :
    emitPairs subs frame = .ok pairs ↔ EmitsPairs subs frame pairs := by
  have delta : ((member frame "type").bind Value.asStr).getD "" = "delta" ↔
      member frame "type" = some (.string "delta") := by
    cases member frame "type" with
    | none => simp
    | some v => cases v <;> simp [Value.asStr]
  have each : ∀ patches : List Value, patches.mapM (emitPair subs) = .ok pairs ↔
      List.Forall₂ (fun patch pair => member patch "path" = some (.string pair.1) ∧
        ∃ v, member patch "value" = some v ∧ pair.2 = subs.apply v) patches pairs := by
    intro patches
    rw [mapM_eq_ok]
    simp only [emitPair_eq_ok]
  rw [emitPairs, EmitsPairs, ite_error_eq_ok, not_not, delta]
  refine and_congr_right fun _ => ?_
  cases member frame "patches" with
  | none => simp
  | some v => cases v <;> simp [Value.asArray, each]

theorem noFrame_eq_ok {durationMs : Nat} {item : Option (SocketItem Text)} :
    noFrame durationMs item = .ok () ↔ Quiet item := by
  rcases item with _ | _ | e | m
  · simp [noFrame, Quiet]
  · simp [noFrame, Quiet]
  · simp [noFrame, Quiet]
  · cases m with
    | close frame =>
        simp only [noFrame, Quiet, List.mem_cons, List.not_mem_nil, or_false]
        split <;> simp_all
    | text | binary | ping | pong | frame => simp [noFrame, Quiet]

theorem readTextFrame_eq_ok {idx timeout : Nat} {v : Value} :
    Effect.exec (readTextFrame P R d idx timeout) s = (.ok v, t) ↔
      ∃ text, d.nextWithin timeout s = (some (some (.ok (.text text))), t) ∧
        P.fromText text = .ok v := by
  rw [readTextFrame, Effect.exec_bind_eq_ok]
  simp only [Effect.exec_total_eq_ok]
  constructor
  · rintro ⟨item, r, yields, done⟩
    rcases item with _ | _ | e | m
    · cases done
    · cases done
    · cases done
    · cases m with
      | text text =>
          dsimp only at done
          split at done
          · next read =>
            cases done
            exact ⟨text, yields, read⟩
          · cases done
      | binary | ping | pong | close | frame => cases done
  · rintro ⟨text, yields, read⟩
    refine ⟨_, t, yields, ?_⟩
    simp [read]

theorem receiveFrame_eq_ok {idx : Nat} {mismatch : Value → String → String} {frame : Value}
    {shadow shadow' : State} :
    Effect.exec (receiveFrame P R d idx mismatch (subs.apply frame) shadow) s =
        (.ok shadow', t) ↔
      ∃ text, Answers P.toTextLayer d s t (.heard text) ∧
        Hears P R subs frame text shadow shadow' := by
  simp only [receiveFrame, Effect.exec_bind_eq_ok, readTextFrame_eq_ok, exec_check_eq_ok,
    mapError_eq_ok, Effect.exec_pure_eq_ok, Answers, Hears, Matches]
  constructor
  · rintro ⟨v, r, ⟨text, yields, read⟩, _, _, ⟨matched, rfl⟩, rfl, rfl⟩
    exact ⟨text, yields, v, read, matched, rfl⟩
  · rintro ⟨text, yields, v, read, matched, rfl⟩
    exact ⟨v, t, ⟨text, yields, read⟩, (), t, ⟨matched, rfl⟩, rfl, rfl⟩

theorem closeWithReason_eq_ok {idx : Nat} {want : String} :
    Effect.exec (closeWithReason R d idx want) s = (.ok (), t) ↔
      ∃ frame : CloseFrame, d.next s = (some (.ok (.close (some frame))), t) ∧
        (want = "$ANY" ∨ want.toList <:+: frame.reason.toList) := by
  rw [closeWithReason, Effect.exec_bind_eq_ok]
  simp only [Effect.exec_total_eq_ok]
  constructor
  · rintro ⟨item, r, yields, done⟩
    rcases item with _ | e | m
    · cases done
    · cases done
    · cases m with
      | close frame =>
          cases frame with
          | none => cases done
          | some frame =>
              obtain ⟨wanted, rfl⟩ := exec_check_eq_ok.mp done
              refine ⟨frame, yields, ?_⟩
              rw [ite_error_eq_ok, Classical.not_and_iff_not_or_not, not_not, not_not] at wanted
              exact wanted.1
      | text | binary | ping | pong | frame => cases done
  · rintro ⟨frame, yields, wanted⟩
    refine ⟨_, t, yields, exec_check_eq_ok.mpr ⟨?_, rfl⟩⟩
    rw [ite_error_eq_ok, Classical.not_and_iff_not_or_not, not_not, not_not]
    exact ⟨wanted, rfl⟩

/-- A step of the player succeeds exactly when the driver takes part in its turns. -/
theorem runStep_ok_iff {idx : Nat} {step : Scenario.Step} {shadow shadow' : State} :
    Effect.exec (runStep P R d subs idx step shadow) s = (.ok shadow', t) ↔
      ∃ turns, TakesPart P.toTextLayer d s t turns ∧ Passes P R subs step shadow turns shadow' := by
  cases step with
  | clientSends frame =>
      simp only [runStep, Effect.exec_bind_eq_ok, Effect.exec_mapError_eq_ok,
        Effect.exec_pure_eq_ok]
      constructor
      · rintro ⟨_, _, sends, rfl, rfl⟩
        exact ⟨[.sent _], takesPart_singleton.mpr sends, .clientSends frame shadow⟩
      · rintro ⟨_, takes, ⟨⟩⟩
        exact ⟨(), t, takesPart_singleton.mp takes, rfl, rfl⟩
  | serverSends frame =>
      simp only [runStep, receiveFrame_eq_ok]
      constructor
      · rintro ⟨text, answers, hears⟩
        exact ⟨_, takesPart_singleton.mpr answers, .serverSends hears⟩
      · rintro ⟨_, takes, ⟨⟩⟩
        exact ⟨_, takesPart_singleton.mp takes, ‹_›⟩
  | expectRuntimeState state =>
      simp only [runStep, Effect.exec_bind_eq_ok, exec_check_eq_ok, Effect.exec_pure_eq_ok]
      constructor
      · rintro ⟨_, _, ⟨holds, rfl⟩, rfl, rfl⟩
        exact ⟨[], rfl, .expectRuntimeState (compareState_applyToMap.mp holds)⟩
      · rintro ⟨_, takes, passes⟩
        cases passes with
        | expectRuntimeState holds =>
            exact ⟨(), t, ⟨compareState_applyToMap.mpr holds, takes⟩, rfl, rfl⟩
  | expectServerState state =>
      simp only [runStep, Effect.exec_bind_eq_ok, Effect.exec_mapError_eq_ok, exec_check_eq_ok,
        Effect.exec_pure_eq_ok]
      constructor
      · rintro ⟨resp, _, asks, _, _, ⟨holds, rfl⟩, rfl, rfl⟩
        refine ⟨[.called .state (.state resp)], takesPart_singleton.mpr ?_,
          .expectServerState (compareState_applyToMap.mp holds)⟩
        exact Effect.exec_bind_of_ok asks
      · rintro ⟨_, takes, passes⟩
        cases passes with
        | expectServerState holds =>
            obtain ⟨resp, r, asks, done⟩ :=
              Effect.exec_bind_eq_ok.mp (takesPart_singleton.mp takes)
            cases done
            exact ⟨_, _, asks, (), _, ⟨compareState_applyToMap.mpr holds, rfl⟩, rfl, rfl⟩
  | expectNoFrameFor durationMs =>
      simp only [runStep, Effect.exec_bind_eq_ok, Effect.exec_total_eq_ok, exec_check_eq_ok,
        Effect.exec_pure_eq_ok]
      constructor
      · rintro ⟨item, _, yields, _, _, ⟨quiet, rfl⟩, rfl, rfl⟩
        exact ⟨[.quiet durationMs],
          takesPart_singleton.mpr ⟨item, yields, noFrame_eq_ok.mp quiet⟩,
          .expectNoFrameFor durationMs shadow⟩
      · rintro ⟨_, takes, ⟨⟩⟩
        obtain ⟨item, yields, quiet⟩ := takesPart_singleton.mp takes
        exact ⟨item, t, yields, (), t, ⟨noFrame_eq_ok.mpr quiet, rfl⟩, rfl, rfl⟩
  | expectClientAction action =>
      rw [runStep]
      split
      · next closing =>
        simp only [Effect.exec_bind_eq_ok, Effect.exec_pure_eq_ok]
        constructor
        · rintro ⟨_, _, closes, rfl, rfl⟩
          obtain ⟨frame, yields, wanted⟩ := closeWithReason_eq_ok.mp closes
          exact ⟨[.closed frame], takesPart_singleton.mpr yields,
            .closeWithReason closing wanted⟩
        · rintro ⟨_, takes, passes⟩
          cases passes with
          | closeWithReason _ wanted =>
              exact ⟨(), t, closeWithReason_eq_ok.mpr ⟨_, takesPart_singleton.mp takes, wanted⟩,
                rfl, rfl⟩
          | reconnect named => exact absurd (closing.symm.trans named) (by decide)
      · next other =>
        split
        · next named =>
          rw [Effect.exec_pure_eq_ok]
          constructor
          · rintro ⟨rfl, rfl⟩
            exact ⟨[], rfl, .reconnect named⟩
          · rintro ⟨_, takes, passes⟩
            cases passes with
            | closeWithReason closing => exact absurd closing other
            | reconnect => exact ⟨rfl, takes⟩
        · next unknown =>
          constructor
          · intro done
            cases done
          · rintro ⟨_, _, passes⟩
            cases passes with
            | closeWithReason closing => exact absurd closing other
            | reconnect named => exact absurd named unknown
  | serverEmits frame =>
      simp only [runStep, Effect.exec_bind_eq_ok, Effect.exec_mapError_eq_ok, exec_check_eq_ok,
        emitPairs_eq_ok, receiveFrame_eq_ok]
      constructor
      · rintro ⟨pairs, _, ⟨emits, rfl⟩, _, r, asks, text, answers, hears⟩
        refine ⟨[.called (.emit pairs) .done, .heard text], ⟨r, ?_, t, answers, rfl⟩,
          .serverEmits emits hears⟩
        exact Effect.exec_bind_of_ok asks
      · rintro ⟨_, takes, passes⟩
        cases passes with
        | serverEmits emits hears =>
            obtain ⟨r, asks, _, answers, rfl⟩ := takes
            obtain ⟨_, _, asked, done⟩ := Effect.exec_bind_eq_ok.mp asks
            cases done
            exact ⟨_, s, ⟨emits, rfl⟩, (), _, asked, _, answers, hears⟩
  | unsupported kind =>
      constructor
      · intro done
        cases done
      · rintro ⟨_, _, passes⟩
        cases passes

theorem runSteps_ok_iff {idx : Nat} {steps : List Scenario.Step} {shadow shadow' : State} :
    Effect.exec (runSteps P R d subs idx steps shadow) s = (.ok shadow', t) ↔
      ∃ turns, TakesPart P.toTextLayer d s t turns ∧
        PassesAll P R subs steps shadow turns shadow' := by
  induction steps generalizing idx s shadow with
  | nil =>
      rw [runSteps, Effect.exec_pure_eq_ok]
      constructor
      · rintro ⟨rfl, rfl⟩
        exact ⟨[], rfl, .nil shadow⟩
      · rintro ⟨_, takes, passes⟩
        cases passes
        exact ⟨rfl, takes⟩
  | cons step steps ih =>
      simp only [runSteps, Effect.exec_bind_eq_ok, runStep_ok_iff, ih]
      constructor
      · rintro ⟨_, r, ⟨turns, takes, first⟩, rest, takes', later⟩
        exact ⟨turns ++ rest, takesPart_append.mpr ⟨r, takes, takes'⟩, .cons first later⟩
      · rintro ⟨_, takes, passes⟩
        cases passes with
        | cons first later =>
            obtain ⟨r, takes, takes'⟩ := takesPart_append.mp takes
            exact ⟨_, r, ⟨_, takes, first⟩, _, takes', later⟩

theorem openWs_ok_iff {url : String} :
    Effect.exec (openWs d url) s = (.ok (), t) ↔
      Answers P.toTextLayer d s t (.connected url) := by
  rw [openWs, Answers]
  by_cases parses : d.urlParses url <;> simp [parses]

/-- The player reports success exactly when the driver takes part in a conversation of the
scenario, whatever the driver is. -/
theorem runScenario_ok_iff (P : Platform Text) (R : Rendering Text) (d : Driver Text σ)
    (scenario : Scenario) (tokens : Std.ExtTreeMap String String) (s t : σ) :
    Effect.exec (runScenario P R d scenario tokens) s = (.ok (), t) ↔
      ∃ turns r, TakesPart P.toTextLayer d s r turns ∧ d.dropSocket r = t ∧
        Conversation P R scenario tokens turns := by
  simp only [runScenario, Effect.exec_bind_eq_ok, Effect.exec_mapError_eq_ok,
    Effect.exec_finally_eq_ok, runSteps_ok_iff]
  constructor
  · rintro ⟨response, s₁, setUp, _, s₂, opened, r, ⟨shadow, s₃, ⟨turns, takes, passes⟩, reset⟩,
      rfl⟩
    refine ⟨.called (.setup _) (.setup response) :: .connected response.wsUrl ::
      (turns ++ [.called .reset .done]), r, ?_, rfl, .mk passes⟩
    exact ⟨s₁, Effect.exec_bind_of_ok setUp, s₂, openWs_ok_iff.mp opened,
      takesPart_append.mpr ⟨s₃, takes, takesPart_singleton.mpr (Effect.exec_bind_of_ok reset)⟩⟩
  · rintro ⟨_, r, takes, rfl, conversation⟩
    cases conversation with
    | mk passes =>
        obtain ⟨s₁, called, s₂, opened, takes⟩ := takes
        obtain ⟨s₃, takes, last⟩ := takesPart_append.mp takes
        obtain ⟨response, _, setUp, done⟩ := Effect.exec_bind_eq_ok.mp called
        obtain ⟨_, _, reset, done'⟩ := Effect.exec_bind_eq_ok.mp (takesPart_singleton.mp last)
        cases done
        cases done'
        exact ⟨_, _, setUp, (), s₂, openWs_ok_iff.mpr opened, _,
          ⟨_, s₃, ⟨_, takes, passes⟩, reset⟩, rfl⟩

end Player
end Lumencast.Conformance
