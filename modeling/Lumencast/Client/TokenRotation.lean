import Lumencast.Client.Lifecycle
import Lumencast.Foundation.Trace
import Lumencast.Protocol.Bundle

/-!
# Token rotation

A `SetToken` command that reaches a live connection is answered with the outcome of an
attempt to connect with the new token. The token that the retry loop uses is the one of the
last rotation that succeeded, and a rotation that fails changes nothing.

The retry loop takes commands as well while it waits between two attempts. A `SetToken`
that it takes there is lost: no attempt is made with its token and nobody replies.
-/

namespace Lumencast.Client

open Foundation Protocol

variable {Text : Type}

/-- An attempt to connect with a token, at the place the client was built for. -/
def ManagerInit.attempt (init : ManagerInit) (token : Token) : Entry :=
  .opening init.url token init.scene init.session

/-- A rotation to `token` in full: an attempt with the token, and the reply with its outcome.
If the attempt fails, the manager holds what it held before. -/
def Answered (init : ManagerInit) (token : Token) (reply : Nat) (before : Holding)
    (rest : List Entry) : Prop :=
  ∃ result after more,
    rest = init.attempt token :: .opened result :: .answered reply (result.map fun _ => ()) after
      :: more ∧
    match result with
    | .ok conn => after = { live := some (.of conn), token }
    | .error _ => after = before

/-- A rotation whose attempt is still under way. -/
def Pending (init : ManagerInit) (m : Manager) (token : Token) (reply : Nat) (before : Holding)
    (rest : List Entry) : Prop :=
  rest = [init.attempt token] ∧ ∃ live, m.phase = .swapping live token reply ∧
    before = { live := some live, token := m.token }

/-- The token of the last rotation that succeeded. -/
def inForce (initial : Token) (journal : List Entry) : Token :=
  journal.foldl
    (fun token e =>
      match e with
      | .answered _ (.ok ()) after => after.token
      | _ => token)
    initial

/-- An attempt belongs to a rotation that was just taken, or uses the token in force. -/
def UsesToken (init : ManagerInit) (front : List Entry) (e : Entry) : Prop :=
  ∀ url token scene session, e = .opening url token scene session →
    e = init.attempt token ∧
      ((∃ before reply holding, front = before ++ [.taken token reply holding]) ∨
        token = inForce init.token front)

/-- A command that was taken is answered, or its rotation is under way. -/
def Served (init : ManagerInit) (m : Manager) (e : Entry) (rest : List Entry) : Prop :=
  ∀ token reply before, e = .taken token reply before →
    Answered init token reply before rest ∨ Pending init m token reply before rest

theorem Answered.append {init : ManagerInit} {token : Token} {reply : Nat} {before : Holding}
    {rest : List Entry} (answered : Answered init token reply before rest) (new : List Entry) :
    Answered init token reply before (rest ++ new) := by
  obtain ⟨result, after, more, rfl, held⟩ := answered
  exact ⟨result, after, more ++ new, rfl, held⟩

/-- Entries that are no replies change no token. -/
theorem inForce_append {initial : Token} {journal entries : List Entry}
    (silent : ∀ e ∈ entries, ∀ reply outcome after, e ≠ .answered reply outcome after) :
    inForce initial (journal ++ entries) = inForce initial journal := by
  rw [inForce, List.foldl_append]
  change List.foldl _ (inForce initial journal) entries = _
  generalize inForce initial journal = token
  induction entries with
  | nil => rfl
  | cons e entries ih =>
      obtain ⟨here, later⟩ := List.forall_mem_cons.mp silent
      cases e with
      | answered reply outcome after => exact absurd rfl (here reply outcome after)
      | taken | opening | opened => exact ih later

theorem inForce_concat (initial : Token) (journal : List Entry) (reply : Nat)
    (outcome : Except ConnectError Unit) (after : Holding) :
    inForce initial (journal ++ [.answered reply outcome after]) =
      match outcome with
      | .ok _ => after.token
      | .error _ => inForce initial journal := by
  rw [inForce, List.foldl_concat]
  cases outcome <;> rfl

namespace Manager

/-- No `SetToken` is taken between two attempts of the retry loop. -/
def Attentive (m : Manager) (label : Label Text) : Prop :=
  match m.phase with
  | .waiting _ => label.rotation = none
  | .connecting _ | .driving _ | .swapping .. | .finished => True

instance (m : Manager) (label : Label Text) : Decidable (m.Attentive label) := by
  unfold Attentive
  exact match m.phase with
    | .waiting _ => inferInstanceAs (Decidable (label.rotation = none))
    | .connecting _ | .driving _ | .swapping .. | .finished => isTrue trivial

/-- The journal of a manager: commands are served, attempts use the token they should, and
the stored token is the one in force. -/
structure Orderly (start : ManagerInit) (m : Manager) : Prop where
  init : m.init = start
  served : EachBefore (Served start m) m.journal
  attempts : EachAfter (UsesToken start) m.journal
  token : m.token = inForce start.token m.journal

variable {start : ManagerInit} {m m' : Manager}

theorem Orderly.opening_eq (orderly : Orderly start m) (token : Token) :
    m.opening token = start.attempt token := by
  rw [opening, ManagerInit.attempt, orderly.init]

/-- Between rotations every command was answered. -/
theorem Orderly.answered (orderly : Orderly start m) (idle : m.Idle) :
    EachBefore (fun e rest => ∀ token reply before, e = .taken token reply before →
      Answered start token reply before rest) m.journal := by
  intro front e rest split token reply before taken
  rcases orderly.served front e rest split token reply before taken with done | pending
  · exact done
  · obtain ⟨_, live, phase, _⟩ := pending
    exact absurd phase (idle live token reply)

theorem Orderly.loop {entries : List Entry} (orderly : Orderly start m) (idle : m.Idle)
    (init : m'.init = m.init) (journal : m'.journal = m.journal ++ entries)
    (own : ∀ e ∈ entries, e = m.opening m.token ∨ ∃ result, e = .opened result)
    (token : m'.token = m.token) : Orderly start m' := by
  have silent : ∀ e ∈ entries, ∀ reply outcome after, e ≠ .answered reply outcome after := by
    intro e member reply outcome after
    rcases own e member with rfl | ⟨result, rfl⟩ <;> simp [opening]
  refine ⟨init.trans orderly.init, ?_, ?_, ?_⟩
  · rw [journal]
    refine (orderly.answered idle).append ?_ (.of_forall fun e member rest => ?_)
    · intro e rest answered token reply before taken
      exact .inl ((answered token reply before taken).append entries)
    · intro token reply before taken
      subst taken
      rcases own _ member with opening | ⟨result, opened⟩
      · cases opening
      · cases opened
  · rw [journal]
    refine orderly.attempts.append fun front e rest split url token scene session opening => ?_
    have member : e ∈ entries := split ▸ List.mem_append_right front List.mem_cons_self
    rcases own e member with same | ⟨result, opened⟩
    · rw [same] at opening
      obtain ⟨_, rfl, _, _⟩ := Entry.opening.inj opening
      refine ⟨same.trans (orderly.opening_eq _), .inr ?_⟩
      rw [inForce_append fun f earlier => silent f (split ▸ List.mem_append_left _ earlier)]
      exact orderly.token
    · rw [opened] at opening
      cases opening
  · rw [journal, inForce_append silent, token]
    exact orderly.token

theorem Orderly.taken {live : Live} {new : Token} {reply : Nat} (orderly : Orderly start m)
    (phase : m.phase = .driving live) (init : m'.init = m.init)
    (journal : m'.journal = m.journal ++ [.taken new reply m.holding, m.opening new])
    (token : m'.token = m.token) (next : m'.phase = .swapping live new reply) :
    Orderly start m' := by
  rw [orderly.opening_eq] at journal
  refine ⟨init.trans orderly.init, ?_, ?_, ?_⟩
  · rw [journal]
    refine (orderly.answered (idle_of_driving phase)).append ?_ ?_
    · intro e rest answered token reply before taken
      exact .inl ((answered token reply before taken).append _)
    · -- the command is the first of the new entries, and its rotation is pending
      intro front e rest split token' reply' before taken
      subst taken
      cases front with
      | nil =>
          cases split
          refine .inr ⟨rfl, live, next, ?_⟩
          rw [holding, phase, token]
      | cons f front =>
          obtain ⟨_, behind⟩ := List.cons.inj split
          cases front with
          | nil => simp [ManagerInit.attempt] at behind
          | cons g front => simp at behind
  · rw [journal]
    refine orderly.attempts.append fun front e rest split url token scene session opening => ?_
    subst opening
    cases front with
    | nil => cases split
    | cons f front =>
        obtain ⟨rfl, behind⟩ := List.cons.inj split
        cases front with
        | nil =>
            obtain ⟨same, _⟩ := List.cons.inj behind
            obtain ⟨_, used, _, _⟩ := Entry.opening.inj same
            subst used
            exact ⟨same.symm, .inl ⟨m.journal, reply, m.holding, rfl⟩⟩
        | cons g front => simp at behind
  · rw [journal, token, inForce_append]
    · exact orderly.token
    · intro e member
      simp only [List.mem_cons, List.not_mem_nil, or_false] at member
      rcases member with rfl | rfl <;> simp [ManagerInit.attempt]

/-- The attempt of a rotation ends, and its command is answered. -/
theorem Orderly.swapped {live : Live} {new : Token} {reply : Nat} (orderly : Orderly start m)
    (phase : m.phase = .swapping live new reply) (init : m'.init = m.init)
    (result : Except ConnectError Connection) (after : Holding)
    (held : match result with
      | .ok conn => after = { live := some (.of conn), token := new }
      | .error _ => after = { live := some live, token := m.token })
    (journal : m'.journal = m.journal ++
      [.opened result, .answered reply (result.map fun _ => ()) after])
    (token : m'.token = after.token) : Orderly start m' := by
  refine ⟨init.trans orderly.init, ?_, ?_, ?_⟩
  · rw [journal]
    refine orderly.served.append ?_ (.of_forall fun e member rest => ?_)
    · intro e rest served token reply' before taken
      rcases served token reply' before taken with answered | ⟨rfl, live', swapping, rfl⟩
      · exact .inl (answered.append _)
      · obtain ⟨rfl, rfl, rfl⟩ := Phase.swapping.inj (phase.symm.trans swapping)
        refine .inl ⟨result, after, [], rfl, ?_⟩
        cases result <;> exact held
    · intro token reply' before taken
      simp only [List.mem_cons, List.not_mem_nil, or_false, taken, reduceCtorEq] at member
  · rw [journal]
    refine orderly.attempts.append fun front e rest split url token scene session opening => ?_
    have member : e ∈ [Entry.opened result, .answered reply (result.map fun _ => ()) after] :=
      split ▸ List.mem_append_right front List.mem_cons_self
    simp only [List.mem_cons, List.not_mem_nil, or_false, opening, reduceCtorEq] at member
  · have silent : inForce start.token (m.journal ++ [.opened result]) = m.token := by
      rw [orderly.token]
      refine inForce_append fun e member => ?_
      rw [List.mem_singleton.mp member]
      simp
    rw [journal, token, List.append_cons, inForce_concat, silent]
    cases result with
    | ok conn => rfl
    | error e =>
        rw [held]
        rfl

theorem Orderly.step {T : TextLayer Text} {label : Label Text} (orderly : Orderly start m)
    (attentive : m.Attentive label) (h : m.step T label = some m') : Orderly start m' := by
  cases move_of_step h with
  | loop entries other idle init journal own token settled =>
      exact orderly.loop idle init journal own token
  | dropped new reply attempt phase command init journal =>
      rw [Attentive, phase, command] at attentive
      cases attentive
  | taken live new reply phase command init journal token next =>
      exact orderly.taken phase init journal token next
  | accepted live new reply conn phase other init journal token settled =>
      exact orderly.swapped phase init (.ok conn) _ rfl journal token
  | refused live new reply e phase other init journal token settled =>
      exact orderly.swapped phase init (.error e) _ rfl journal token

theorem orderly_start (init : ManagerInit) : Orderly init (Manager.start init) where
  init := rfl
  served := .of_forall fun e member rest => by
    rw [List.mem_singleton.mp member]
    exact nofun
  attempts := by
    refine EachAfter.append .nil fun front e rest split url token scene session opening => ?_
    cases front with
    | nil =>
        obtain ⟨same, _⟩ := List.cons.inj split
        obtain ⟨_, used, _, _⟩ := Entry.opening.inj (same.trans opening)
        subst used
        exact ⟨same.symm, .inr rfl⟩
    | cons f front => simp at split
  token := rfl

end Manager

/-- In every run of the manager that takes no `SetToken` between two attempts of the retry
loop: the journal records every `SetToken` that was taken; each is answered with the
outcome of an attempt with its token, unless this attempt is still under way, and if the
attempt failed the manager holds what it held before; and every attempt is either the one
of a rotation or uses the token of the last rotation that succeeded. -/
theorem rotations_answered {T : TextLayer Text} {init : ManagerInit} {stop : Manager}
    {schedule : List (Label Text)}
    (attentive : Along (Manager.step T) Manager.Attentive (Manager.start init) schedule)
    (reach : run (Manager.step T) (Manager.start init) schedule = some stop) :
    stop.journal.filterMap Entry.rotation = schedule.filterMap Label.rotation ∧
      (∀ front token reply before rest, stop.journal = front ++ .taken token reply before :: rest →
        Answered init token reply before rest ∨ Pending init stop token reply before rest) ∧
      ∀ front url token scene session rest,
        stop.journal = front ++ .opening url token scene session :: rest →
          .opening url token scene session = init.attempt token ∧
            ((∃ earlier reply before, front = earlier ++ [.taken token reply before]) ∨
              token = inForce init.token front) := by
  have orderly : Manager.Orderly init stop :=
    attentive.invariant (fun _ _ _ orderly attentive h => orderly.step attentive h)
      (Manager.orderly_start init) reach
  refine ⟨Manager.rotations_of_run reach, ?_, ?_⟩
  · intro front token reply before rest split
    exact orderly.served front _ rest split token reply before rfl
  · intro front url token scene session rest split
    exact orderly.attempts front _ rest split url token scene session rfl

private def hall : ManagerInit := { url := "ws://hall", token := "old" }

private def socket (n : Nat) : Connection :=
  { socket := n, snapshot := { seq := 1, sceneId := "hall", sceneVersion := "1", state := ∅ } }

/-- A rotation that fails, a rotation that succeeds, and a lost connection. -/
private def rotations : List (Label Value) :=
  [.opened (.ok (socket 0)), .command (some (.setToken "bad" 0)), .opened (.error .closed),
    .command (some (.setToken "new" 1)), .opened (.ok (socket 1)), .incoming .close]

private def afterRotations : Manager :=
  (run (Manager.step valuePlatform.toTextLayer) (Manager.start hall) rotations).getD
    (Manager.start hall)

private theorem run_rotations :
    run (Manager.step valuePlatform.toTextLayer) (Manager.start hall) rotations =
      some afterRotations := rfl

theorem rotations_answered_hall :
    afterRotations.journal.filterMap Entry.rotation = [("bad", 0), ("new", 1)] ∧
      ∃ front reply before rest, afterRotations.journal =
          front ++ .taken "bad" reply before :: rest ∧
        Answered hall "bad" reply before rest := by
  have attentive : Along (Manager.step valuePlatform.toTextLayer) Manager.Attentive
      (Manager.start hall) rotations := by
    decide
  obtain ⟨recorded, answered, _⟩ := rotations_answered attentive run_rotations
  have split : afterRotations.journal =
      [hall.attempt "old", .opened (.ok (socket 0))] ++
        .taken "bad" 0 { live := some (.of (socket 0)), token := "old" } ::
          afterRotations.journal.drop 3 := by
    decide
  refine ⟨recorded, _, 0, _, _, split, ?_⟩
  refine (answered _ "bad" 0 _ _ split).resolve_right ?_
  rintro ⟨_, live, phase, _⟩
  cases phase

/-- A `SetToken` that is taken between two attempts is never answered: the next attempt
uses the old token. -/
theorem rotation_dropped :
    ∃ stop : Manager, run (Manager.step valuePlatform.toTextLayer) (Manager.start hall)
        [.opened (.error .closed), .command (some (.setToken "new" 0)),
          .opened (.ok (socket 0))] = some stop ∧
      ∃ front before rest, stop.journal = front ++ .taken "new" 0 before :: rest ∧
        ¬(Answered hall "new" 0 before rest ∨ Pending hall stop "new" 0 before rest) := by
  refine ⟨_, rfl, [hall.attempt "old", .opened (.error .closed)], _, _, rfl, ?_⟩
  rintro (⟨result, after, more, split, _⟩ | ⟨split, _⟩)
  · exact absurd (Entry.opening.inj (List.cons.inj split).1).2.1 (by decide)
  · exact absurd (Entry.opening.inj (List.cons.inj split).1).2.1 (by decide)

end Lumencast.Client
