import Lumencast.Foundation.Conservation
import Lumencast.Server.NoLoss
import Lumencast.Server.WriteOrder

/-!
# Every admitted input is published once

Adapters submit pairs to a scene, and so do operators, whose inputs a connection
handler admits or refuses. In every interleaving the deltas that a scene broadcasts
are these submissions: each caller's are broadcast once, whole and in the order in
which they were made, except for one that may still be in progress, and nothing
else is broadcast.
-/

namespace Lumencast.Server

open Foundation Protocol

variable {Text : Type}

/-- The pairs that somebody wants written, and where they come from. -/
structure Submission where
  pairs : List (String × Value)
  cause : Option Cause
  deriving DecidableEq

def Emission.submission (e : Emission) : Submission := ⟨writes e.patches, e.cause⟩

def DeltaPayload.submission (p : DeltaPayload) : Submission := ⟨p.writes, p.cause⟩

/-- A call with an illegal pair fails, and one without pairs does nothing. -/
def submitted (pairs : List (String × Value)) (cause : Option Cause) : List Submission :=
  match parsePairs pairs with
  | .error _ | .ok [] => []
  | .ok (_ :: _) => [⟨pairs, cause⟩]

/-- The submissions of a caller among the deltas that were broadcast. -/
def ofCaller (caller : Caller) (record : List (Caller × DeltaPayload)) : List Submission :=
  record.filterMap fun sent => if sent.1 = caller then some sent.2.submission else none

/-! ## One scene -/

/-- Removing the entries of one key hides no other key. -/
private theorem lookup_filter_of_ne {α β : Type} [DecidableEq α] {key other : α}
    (apart : other ≠ key) (entries : List (α × β)) :
    (entries.filter fun entry => entry.1 ≠ key).lookup other = entries.lookup other := by
  induction entries with
  | nil => rfl
  | cons entry entries ih =>
      obtain ⟨k, b⟩ := entry
      by_cases removed : k = key
      · have different : (other == k) = false := by simpa [removed] using apart
        rw [List.filter_cons_of_neg (by simpa using removed), ih, List.lookup_cons, different]
      · rw [List.filter_cons_of_pos (by simpa using removed), List.lookup_cons, List.lookup_cons,
          ih]

def SceneAction.submissions (caller : Caller) : SceneAction → List Submission
  | .emit k pairs cause => if caller = k then submitted pairs cause else []
  | .progress _ | .change | .reject .. | .withOperatorInputs _ => []

namespace SceneCell

variable {cell cell' : SceneCell Text}

/-- The delta that an action broadcasts, and its caller. -/
def broadcasts (cell : SceneCell Text) : SceneAction → List (Caller × DeltaPayload)
  | .progress caller =>
      match cell.emission caller with
      | some { patches, cause, stage := .send seq } => [(caller, { seq, patches, cause })]
      | _ => []
  | _ => []

/-- The submission that is not broadcast yet. -/
def underway (cell : SceneCell Text) (caller : Caller) : List Submission :=
  (cell.emission caller).toList.map Emission.submission

/-- The other calls are not moved. -/
theorem emission_advance_of_ne {caller other : Caller} (apart : other ≠ caller)
    (after : Scene Text × Option Emission) :
    (cell.advance caller after).emission other = cell.emission other := by
  have absent : ((after.2.map fun e => (caller, e)).toList).lookup other = none := by
    rw [List.lookup_eq_none_iff]
    intro call member
    obtain ⟨e, _, rfl⟩ := Option.map_eq_some_iff.mp (Option.mem_toList.mp member)
    simpa using apart
  rw [emission, advance, List.lookup_append, absent, Option.or_none, others]
  exact lookup_filter_of_ne apart cell.calls

/-- A call that begins is found under its caller. -/
theorem emission_begin {caller other : Caller} {e : Emission} (free : cell.emission caller = none) :
    ({ cell with calls := cell.calls ++ [(caller, e)] } : SceneCell Text).emission other =
      if other = caller then some e else cell.emission other := by
  rw [emission, List.lookup_append, ← emission]
  split
  · next same =>
    subst same
    rw [free, Option.none_or, List.lookup_cons_self]
  · next apart =>
    have absent : [(caller, e)].lookup other = none := by
      rw [List.lookup_eq_none_iff]
      simpa using apart
    rw [absent, Option.or_none]

/-- A call begins an emission exactly when it submits something. -/
theorem submitted_of_step {k : Caller} {pairs : List (String × Value)} {cause : Option Cause}
    (h : cell.step (.emit k pairs cause) = some cell') :
    cell.emission k = none ∧
      (submitted pairs cause = [] ∧ cell' = cell ∨
        ∃ e : Emission, submitted pairs cause = [e.submission] ∧
          cell' = { cell with calls := cell.calls ++ [(k, e)] }) := by
  simp only [step] at h
  split at h
  · cases h
  · next free =>
    refine ⟨by simpa using free, ?_⟩
    rw [submitted]
    cases parsed : parsePairs pairs with
    | error e =>
        rw [parsed] at h
        exact .inl ⟨rfl, (Option.some.inj h).symm⟩
    | ok patches =>
        rw [parsed] at h
        cases patches with
        | nil => exact .inl ⟨rfl, (Option.some.inj h).symm⟩
        | cons p patches =>
            refine .inr ⟨{ patches := p :: patches, cause }, ?_, (Option.some.inj h).symm⟩
            rw [Emission.submission, writes_of_parsePairs parsed]

/-- What a caller has under way and submits is what it broadcasts and has under way then. -/
theorem underway_step {a : SceneAction} (h : cell.step a = some cell') (caller : Caller) :
    cell.underway caller ++ a.submissions caller =
      ofCaller caller (cell.broadcasts a) ++ cell'.underway caller := by
  cases a with
  | emit k pairs cause =>
      obtain ⟨free, ⟨none_, rfl⟩ | ⟨e, one, rfl⟩⟩ := submitted_of_step h
      · have nothing : (SceneAction.emit k pairs cause).submissions caller = [] := by
          rw [SceneAction.submissions, none_, ite_self]
        rw [nothing, List.append_nil]
        rfl
      · rw [underway, underway, emission_begin free, SceneAction.submissions, one]
        by_cases same : caller = k
        · subst same
          rw [free, if_pos rfl, if_pos rfl]
          rfl
        · rw [if_neg same, if_neg same, List.append_nil]
          rfl
  | progress k =>
      obtain ⟨e, found, rfl⟩ := step_progress h
      show _ ++ [] = _ ++ (cell.advance k (e.step cell.scene)).underway caller
      rw [List.append_nil, underway, underway]
      by_cases same : caller = k
      · subst same
        rw [emission_advance, found, broadcasts, found]
        obtain ⟨patches, cause, stage⟩ := e
        cases stage with
        | send seq => simp [ofCaller, Emission.step, Emission.submission, DeltaPayload.submission,
            DeltaPayload.writes]
        | write | number | push seq => rfl
      · have others : ofCaller caller (cell.broadcasts (.progress k)) = [] := by
          rw [broadcasts, found]
          obtain ⟨patches, cause, stage⟩ := e
          cases stage <;> simp [ofCaller, Ne.symm same]
        rw [emission_advance_of_ne same, others, List.nil_append]
  | change | reject | withOperatorInputs =>
      cases h
      exact List.append_nil _

theorem sent_step {a : SceneAction} (h : cell.step a = some cell') :
    cell'.scene.tx.sent = cell.scene.tx.sent ++ (cell.broadcasts a).map (·.2) := by
  cases a with
  | emit k pairs cause =>
      obtain ⟨_, rfl | ⟨_, _, rfl⟩⟩ := step_emit h <;> simp [broadcasts]
  | progress k =>
      obtain ⟨⟨patches, cause, stage⟩, found, rfl⟩ := step_progress h
      cases stage <;> simp [broadcasts, found, Emission.step, Scene.applyPatches, Scene.advanceSeq,
        Scene.pushReplay, Scene.sendDelta]
  | change | reject | withOperatorInputs =>
      cases h
      exact (List.append_nil _).symm

end SceneCell

/-! ## The whole server -/

/-- The input of a text frame, if it passes every gate. -/
def letThrough (T : TextLayer Text) (scene : Scene Text) (identity : Identity) (rate : RateBucket)
    (now : Nat) (t : Text) : List Submission :=
  match decodeClient T t with
  | .ok (.input input) =>
      match (handleInput T scene identity rate now input).1 with
      | .publish .. => [⟨writes input.patches, inputCause identity input⟩]
      | _ => []
  | _ => []

/-- The input that a handler lets through when it takes the first message of its inbox while
its connection listens to the scene `r`. -/
def Connection.admits (T : TextLayer Text) (inner : ServerInner Text) (conn : Connection Text)
    (amb : Ambient) (r : SceneRef) : List Submission :=
  match conn.phase, conn.current, conn.inbox with
  | .live, some q, .text t :: _ =>
      if q = r then
        letThrough T (inner.heap r).scene conn.identity conn.rate amb.clock.instant t
      else []
  | _, _, _ => []

/-- What a handler asks of the scene `r`, as a submission. -/
def Outcome.submissions (o : Outcome Text) (r : SceneRef) (caller : Caller) : List Submission :=
  match o.effect with
  | some (q, a) => if q = r then a.submissions caller else []
  | none => []

namespace Connection

variable {T : TextLayer Text} {inner : ServerInner Text} {c : Nat} {conn : Connection Text}
  {amb : Ambient} {o : Outcome Text}

/-- What is published is the input, and its emission does not fail. -/
theorem submitted_of_publish {scene : Scene Text} {identity : Identity} {rate rate' : RateBucket}
    {now : Nat} {input : Input} {patches : List Patch} {cause : Option Cause}
    (published : handleInput T scene identity rate now input = (.publish patches cause, rate')) :
    submitted (writes patches) cause = [⟨writes input.patches, inputCause identity input⟩] := by
  obtain ⟨_, nonempty, _, _, parsed, rfl⟩ := handleInput_eq_publish.mp published
  have same := writes_of_parsePairs parsed
  rw [same, submitted, parsed]
  cases patches with
  | nil => exact absurd (List.map_eq_nil_iff.mp same.symm) nonempty
  | cons => rfl

theorem submissions_onMessage (q r : SceneRef) (caller : Caller) (scene : Scene Text) (t : Text) :
    (conn.onMessage T c q scene amb (.text t)).submissions r caller =
      if caller = .handler c ∧ q = r then
        letThrough T scene conn.identity conn.rate amb.clock.instant t
      else [] := by
  have silent {o : Outcome Text} (idle : o.effect = none) : o.submissions r caller = [] := by
    rw [Outcome.submissions, idle]
  rw [onMessage, handleTextFrame, letThrough]
  rcases decodeClient T t with e | frame
  · cases e <;> exact (silent rfl).trans (ite_self _).symm
  · cases frame with
    | ping | subscribe | unsubscribe => exact (silent rfl).trans (ite_self _).symm
    | input input =>
        dsimp only
        rcases verdict : handleInput T scene conn.identity conn.rate amb.clock.instant input
          with ⟨v, rate⟩
        cases v with
        | answer | refuse | stop | ignore => exact (silent rfl).trans (ite_self _).symm
        | publish patches cause =>
            rw [Outcome.submissions]
            by_cases here : q = r
            · by_cases own : caller = .handler c
              · simp [SceneAction.submissions, here, own, submitted_of_publish verdict]
              · simp [SceneAction.submissions, own]
            · simp [here]

/-- Messages are taken in the main loop alone. -/
theorem admits_eq_nil_of_phase {r : SceneRef} (elsewhere : conn.phase ≠ .live) :
    conn.admits T inner amb r = [] := by
  rw [admits]
  split
  · next phase _ _ => exact absurd phase elsewhere
  · rfl

/-- A handler asks for an emission exactly when it lets an input through. -/
theorem submissions_of_step (h : conn.step T inner c amb = some o) (r : SceneRef)
    (caller : Caller) :
    o.submissions r caller =
      if caller = .handler c then conn.admits T inner amb r else [] := by
  by_cases live : conn.phase = .live
  · simp only [step, live] at h
    obtain ⟨q, current, rfl⟩ := Option.map_eq_some_iff.mp h
    rcases inbox : conn.inbox with _ | ⟨m, rest⟩
    · simp [Outcome.submissions, admits, live, current, inbox]
    · cases m with
      | text t =>
          refine (submissions_onMessage q r caller (inner.heap q).scene t).trans ?_
          by_cases here : q = r
          · subst here
            simp [admits, live, current, inbox]
          · simp [admits, live, current, inbox, here]
      | binary | ping | pong | close =>
          simp [Outcome.submissions, admits, live, current, inbox, onMessage]
  · rw [admits_eq_nil_of_phase live, ite_self]
    cases transition_of_step h with
    | message phase | pollEvents phase => exact absurd phase live
    | leave phase current => exact ite_self _
    | _ => rfl

/-- A handler asks nothing of a scene that its connection does not listen to. -/
theorem current_of_effect {r : SceneRef} {a : SceneAction} (h : conn.step T inner c amb = some o)
    (asked : o.effect = some (r, a)) : conn.current = some r := by
  cases move_of_step h with
  | leave before _ _ _ _ effect =>
      obtain ⟨rfl, _⟩ := Prod.mk.inj (Option.some.inj (effect.symm.trans asked))
      exact current_of_attached before
  | still _ _ _ effect => exact current_of_attached (effect r a asked).1
  | _ => simp_all

end Connection

/-- A step on one scene object leaves the others alone. -/
theorem ServerInner.onScene_eq_some {inner inner' : ServerInner Text} {r : SceneRef}
    {sa : SceneAction} (h : inner.onScene r sa = some inner') :
    (inner.heap r).step sa = some (inner'.heap r) ∧
      ∀ q, q ≠ r → inner'.heap q = inner.heap q := by
  obtain ⟨cell, stepped, rfl⟩ := Option.map_eq_some_iff.mp h
  have stored : (inner.setCell r cell).heap r = cell := Function.update_self ..
  exact ⟨by rw [stepped, stored], fun q other => Function.update_of_ne other ..⟩

namespace World

variable {P : Platform Text} {w w' : World Text} {a : Action Text}

/-- What a caller submits to the scene `r` in an action. -/
def submissions (P : Platform Text) (r : SceneRef) (caller : Caller) (w : World Text) :
    Action Text → List Submission
  | .scene q a => if q = r then a.submissions caller else []
  | .handler c amb =>
      if caller = .handler c then (w.conns c).admits P.toTextLayer w.inner amb r else []
  | .request .. | .serve _ | .receive .. | .hangup _ => []

/-- The delta that an action broadcasts on the scene `r`, and its caller. -/
def broadcasts (r : SceneRef) (w : World Text) : Action Text → List (Caller × DeltaPayload)
  | .scene q a => if q = r then (w.inner.heap r).broadcasts a else []
  | .request .. | .serve _ | .receive .. | .handler .. | .hangup _ => []

/-- The deltas that the scene `r` has broadcast since it exists. -/
def channel (r : SceneRef) (w : World Text) : List DeltaPayload :=
  if r < w.inner.nextRef then (w.inner.heap r).scene.tx.sent else []

/-- An action is a step of the scene `r`, or it submits and broadcasts nothing there. -/
theorem acts_cases (wf : w.Wf) (h : w.step P a = some w') (r : SceneRef) :
    (∃ sa, r < w.inner.nextRef ∧ (w.inner.heap r).step sa = some (w'.inner.heap r) ∧
        (∀ caller, w.submissions P r caller a = sa.submissions caller) ∧
        w.broadcasts r a = (w.inner.heap r).broadcasts sa) ∨
      (w'.inner.heap r = w.inner.heap r ∨
        r = w.inner.nextRef ∧ ∃ reg : Registration, w'.inner.heap r = { scene := reg.scene P }) ∧
      (∀ caller, w.submissions P r caller a = []) ∧ w.broadcasts r a = [] := by
  cases a with
  | scene q sa =>
      simp only [step] at h
      split at h
      · next allowed =>
        obtain ⟨inner, stepped, rfl⟩ := Option.map_eq_some_iff.mp h
        obtain ⟨here, elsewhere⟩ := ServerInner.onScene_eq_some stepped
        by_cases same : q = r
        · subst same
          exact .inl ⟨sa, allowed.1, here, fun _ => if_pos rfl, if_pos rfl⟩
        · exact .inr ⟨.inl (elsewhere r (Ne.symm same)), fun _ => if_neg same, if_neg same⟩
      · cases h
  | request n q =>
      simp only [step] at h
      split at h <;> cases h
      exact .inr ⟨.inl rfl, fun _ => rfl, rfl⟩
  | serve n =>
      obtain ⟨call, task, rfl⟩ := Option.map_eq_some_iff.mp h
      refine .inr ⟨?_, fun _ => rfl, rfl⟩
      rcases call.step_heap P w.inner with ⟨heap, _⟩ | ⟨reg, heap, _⟩
      · exact .inl (congrFun heap r)
      · by_cases new : r = w.inner.nextRef
        · subst new
          exact .inr ⟨rfl, reg, (congrFun heap _).trans (Function.update_self ..)⟩
        · exact .inl ((congrFun heap r).trans (Function.update_of_ne new ..))
  | receive c m =>
      cases h
      exact .inr ⟨.inl rfl, fun _ => rfl, rfl⟩
  | handler c amb =>
      obtain ⟨o, stepped, _, effect⟩ := step_handler h
      have shown (caller : Caller) : w.submissions P r caller (.handler c amb) =
          o.submissions r caller := (Connection.submissions_of_step stepped r caller).symm
      cases asked : o.effect with
      | none =>
          rw [asked] at effect
          refine .inr ⟨.inl (by rw [← Option.some.inj effect]), fun caller => ?_, rfl⟩
          rw [shown, Outcome.submissions, asked]
      | some request =>
          obtain ⟨q, sa⟩ := request
          rw [asked] at effect
          obtain ⟨here, elsewhere⟩ := ServerInner.onScene_eq_some effect
          by_cases same : q = r
          · subst same
            refine .inl ⟨sa, wf.current (Connection.current_of_effect stepped asked), here,
              fun caller => ?_, ?_⟩
            · rw [shown, Outcome.submissions, asked]
              exact if_pos rfl
            · cases sa with
              | progress caller => exact absurd asked (Connection.not_progress_of_step stepped)
              | emit | change | reject | withOperatorInputs => rfl
          · refine .inr ⟨.inl (elsewhere r (Ne.symm same)), fun caller => ?_, rfl⟩
            rw [shown, Outcome.submissions, asked]
            exact if_neg same
  | hangup c =>
      simp only [step] at h
      split at h <;> cases h
      exact .inr ⟨.inl rfl, fun _ => rfl, rfl⟩

/-- What is not created yet is idle. -/
structure Ready (r : SceneRef) (w : World Text) : Prop where
  wf : w.Wf
  idle : w.inner.nextRef ≤ r → (w.inner.heap r).calls = []

theorem Ready.step {r : SceneRef} (ready : w.Ready r) (h : w.step P a = some w') :
    w'.Ready r := by
  refine ⟨ready.wf.step h, fun new => ?_⟩
  have unknown : w.inner.nextRef ≤ r := Nat.le_trans (step_refs h).1 new
  rcases acts_cases ready.wf h r with ⟨_, known, _⟩ | ⟨same | ⟨_, _, created⟩, _⟩
  · exact absurd known (Nat.not_lt.mpr unknown)
  · rw [same]
    exact ready.idle unknown
  · rw [created]

theorem Ready.underway_step {r : SceneRef} (ready : w.Ready r) (h : w.step P a = some w')
    (caller : Caller) :
    (w.inner.heap r).underway caller ++ w.submissions P r caller a =
      ofCaller caller (w.broadcasts r a) ++ (w'.inner.heap r).underway caller := by
  rcases acts_cases ready.wf h r with ⟨sa, _, stepped, submits, broadcasts⟩ |
    ⟨kept, submits, broadcasts⟩
  · rw [submits, broadcasts]
    exact SceneCell.underway_step stepped caller
  · rw [submits, broadcasts, List.append_nil]
    rcases kept with same | ⟨new, _, created⟩
    · rw [same]
      rfl
    · rw [created, SceneCell.underway, SceneCell.emission, ready.idle (Nat.le_of_eq new.symm)]
      rfl

theorem Ready.channel_step {r : SceneRef} (ready : w.Ready r) (h : w.step P a = some w') :
    w'.channel r = w.channel r ++ (w.broadcasts r a).map (·.2) := by
  rcases acts_cases ready.wf h r with ⟨sa, known, stepped, _, broadcasts⟩ | ⟨kept, _, broadcasts⟩
  · have still : r < w'.inner.nextRef := Nat.lt_of_lt_of_le known (step_refs h).1
    rw [channel, channel, if_pos known, if_pos still, broadcasts]
    exact SceneCell.sent_step stepped
  · rw [broadcasts, List.map_nil, List.append_nil, channel, channel]
    by_cases known : r < w.inner.nextRef
    · have still : r < w'.inner.nextRef := Nat.lt_of_lt_of_le known (step_refs h).1
      rcases kept with same | ⟨new, _⟩
      · rw [if_pos known, if_pos still, same]
      · exact absurd known (Nat.not_lt.mpr (Nat.le_of_eq new.symm))
    · rw [if_neg known]
      split
      · next created =>
        obtain ⟨reg, fresh⟩ := created_of_step h (Nat.not_lt.mp known) created
        rw [fresh, (reg.scene_fresh P).2.1]
        rfl
      · rfl

end World

/-- A scene and the record of what it has broadcast since it was `base`. -/
structure World.Recorded (r : SceneRef) (base : List DeltaPayload) (w : World Text)
    (record : List (Caller × DeltaPayload)) : Prop where
  ready : w.Ready r
  channel : w.channel r = base ++ record.map (·.2)

theorem World.Init.recorded {start : World Text} (init : start.Init) (r : SceneRef) :
    start.Recorded r (start.channel r) [] where
  ready := ⟨init.wf, fun _ => init.idle r⟩
  channel := (List.append_nil _).symm

theorem World.Recorded.step {P : Platform Text} {w w' : World Text} {a : Action Text}
    {r : SceneRef} {base : List DeltaPayload} {record : List (Caller × DeltaPayload)}
    (recorded : w.Recorded r base record) (h : w.step P a = some w') :
    w'.Recorded r base (record ++ w.broadcasts r a) where
  ready := recorded.ready.step h
  channel := by
    rw [recorded.ready.channel_step h, recorded.channel, List.map_append, List.append_assoc]

theorem World.submissions_of_run {P : Platform Text} {start stop : World Text}
    {schedule : List (Action Text)} (init : start.Init)
    (reach : run (World.step P) start schedule = some stop) (r : SceneRef) (caller : Caller) :
    observed (World.step P) (World.submissions P r caller) start schedule =
      ofCaller caller (observed (World.step P) (World.broadcasts r) start schedule) ++
        (stop.inner.heap r).underway caller := by
  have kept := conserved (fun _ _ _ ready h => World.Ready.step ready h)
    (fun _ _ _ ready h => World.Ready.underway_step ready h caller) (init.recorded r).ready reach
  have none_ : (start.inner.heap r).underway caller = [] := by
    rw [SceneCell.underway, SceneCell.emission, init.idle]
    rfl
  rw [none_, List.nil_append] at kept
  rw [kept, ofCaller, filterMap_observed]
  rfl

/-- In every run the deltas that a scene broadcasts are what adapters submitted and handlers
let through there: each caller's submissions once, in order and unchanged, but for one that
is still under way. -/
theorem published_once {P : Platform Text} {start stop : World Text}
    {schedule : List (Action Text)} (init : start.Init)
    (reach : run (World.step P) start schedule = some stop) (r : SceneRef) :
    ∃ record : List (Caller × DeltaPayload),
      stop.channel r = start.channel r ++ record.map (·.2) ∧
      ∀ caller, observed (World.step P) (World.submissions P r caller) start schedule =
        ofCaller caller record ++ (stop.inner.heap r).underway caller := by
  have recorded := observed_invariant (I := fun w record => w.Recorded r (start.channel r) record)
    (Q := fun _ _ => True) (fun _ _ _ _ recorded _ h => recorded.step h) (init.recorded r)
    (Along.of_forall_mem fun _ _ _ => trivial) reach
  exact ⟨_, recorded.channel, World.submissions_of_run init reach r⟩

/-- The two scenes, with connections that may send inputs. -/
def openScenes : World Value :=
  { twoScenes with conns := fun _ => { rate := RateBucket.new 60 0 } }

theorem openScenes_init : openScenes.Init :=
  { twoScenes_init with
    awaiting := fun _ => rfl
    unresolved := fun _ => rfl
    silent := fun _ => rfl }

/-- A connection sends an input, and an adapter overtakes it. -/
def overtakenInput : List (Action Value) :=
  connect 0 ++
    [.receive 0 (.text (.object [("client_msg_id", .string "m"),
      ("patches", .array [.object [("path", .string "__inputs.lamp"), ("value", .bool true)]]),
      ("type", .string "input"), ("v", .number (.posInt 1))])),
      operatorStep 0] ++
    emission 0 true ++ List.replicate 4 (.scene 0 (.progress (.handler 0)))

theorem published_once_overtakenInput :
    ∃ stop, run (World.step valuePlatform) openScenes overtakenInput = some stop ∧
      (stop.channel 0).map DeltaPayload.submission = [⟨[("lamp", .bool true)], none⟩,
        ⟨[("__inputs.lamp", .bool true)], some { source := "operator:operator", inputId := "m" }⟩] ∧
      ∃ record : List (Caller × DeltaPayload),
        stop.channel 0 = openScenes.channel 0 ++ record.map (·.2) ∧
        ∀ caller, observed (World.step valuePlatform) (World.submissions valuePlatform 0 caller)
            openScenes overtakenInput =
          ofCaller caller record ++ (stop.inner.heap 0).underway caller := by
  have ends : (run (World.step valuePlatform) openScenes overtakenInput).any (fun stop =>
      (stop.channel 0).map DeltaPayload.submission = [⟨[("lamp", .bool true)], none⟩,
        ⟨[("__inputs.lamp", .bool true)],
          some { source := "operator:operator", inputId := "m" }⟩]) = true := by
    decide
  obtain ⟨stop, reach, sent⟩ := exists_run_of_any ends
  exact ⟨stop, reach, sent, published_once openScenes_init reach 0⟩

end Lumencast.Server
