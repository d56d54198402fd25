import Lumencast.Foundation.Tickets
import Lumencast.Server.SceneCell

/-!
# The order of numbers on the wire

An emission takes its number under one lock and shows it twice later: it pushes a
record to the replay ring and sends a delta to the channel. Both stay in the order
of the numbers as long as no emission is overtaken between taking its number and
showing it. A receiver gets a part of what the channel carries, so it gets its
deltas in the same order.
-/

namespace Lumencast.Server

open Foundation Protocol

variable {Text : Type}

namespace Emission

/-- The number of a record that is still to be pushed. -/
def toPush (e : Emission) : Option Nat :=
  match e.stage with
  | .push seq => some seq
  | _ => none

/-- The number of a delta that is sent next. -/
def toSend (e : Emission) : Option Nat :=
  match e.stage with
  | .send seq => some seq
  | _ => none

end Emission

/-- A receiver of the deltas of a scene. -/
structure Receiver where
  next : Nat
  received : List DeltaPayload := []
  deriving DecidableEq

/-- A scene with its emissions in progress, and the receivers of its channel. -/
structure Audience (Text : Type) where
  cell : SceneCell Text
  receivers : Nat → Option Receiver

inductive AudienceAction where
  | scene (a : SceneAction)
  | subscribe (i : Nat)
  | recv (i : Nat)
  deriving DecidableEq

/-- One receive attempt; a receiver that lags goes on behind what it missed. -/
def Receiver.recv (tx : Broadcast DeltaPayload) (receiver : Receiver) : Receiver :=
  match tx.recv receiver.next with
  | .message p next => { next, received := receiver.received ++ [p] }
  | .lagged _ next => { receiver with next }
  | .empty => receiver

namespace SceneCell

/-- No other emission with a smaller number has still to push what this step pushes, or
to send what this step sends. -/
def PublishesInOrder (cell : SceneCell Text) : SceneAction → Prop
  | .progress caller => ∀ e ∈ cell.emission caller, ∀ call ∈ cell.others caller,
      (∀ n ∈ e.toPush, ∀ m ∈ call.2.toPush, n ≤ m) ∧ ∀ n ∈ e.toSend, ∀ m ∈ call.2.number, n ≤ m
  | _ => True

instance (cell : SceneCell Text) : (a : SceneAction) → Decidable (cell.PublishesInOrder a)
  | .progress caller => inferInstanceAs (Decidable (∀ e ∈ cell.emission caller,
      ∀ call ∈ cell.others caller, (∀ n ∈ e.toPush, ∀ m ∈ call.2.toPush, n ≤ m) ∧
        ∀ n ∈ e.toSend, ∀ m ∈ call.2.number, n ≤ m))
  | .emit .. | .change | .reject .. | .withOperatorInputs _ => isTrue trivial

/-- What calls in progress have still to show. -/
def waiting {β : Type} (held : Emission → Option β) (calls : List (Caller × Emission)) : List β :=
  calls.filterMap fun call => held call.2

section Waiting

variable {β : Type} (held : Emission → Option β) (l r : List (Caller × Emission))
  (call : Caller × Emission)

@[simp] theorem waiting_append : waiting held (l ++ r) = waiting held l ++ waiting held r :=
  List.filterMap_append

theorem waiting_cons : waiting held (call :: r) = (held call.2).toList ++ waiting held r := by
  cases h : held call.2 <;> simp [waiting, h]

theorem waiting_middle : (waiting held (l ++ call :: r)).Perm
    ((held call.2).toList ++ waiting held (l ++ r)) := by
  rw [waiting_append, waiting_cons, waiting_append]
  exact List.perm_append_comm_assoc ..

theorem waiting_concat (silent : held call.2 = none) :
    waiting held (l ++ [call]) = waiting held l := by
  simp [waiting, silent]

/-- The waiting numbers after a step of one call. -/
theorem waiting_moved (caller : Caller) (next : Option Emission) :
    waiting held (l ++ (next.map fun e => (caller, e)).toList) =
      waiting held l ++ (next.bind held).toList := by
  rw [waiting_append]
  cases next with
  | none => rfl
  | some e =>
      rw [Option.map_some, Option.toList_some, waiting_cons, Option.bind_some]
      simp [waiting]

end Waiting

/-- The ring and the channel are in the order of the numbers. -/
structure InOrder (cell : SceneCell Text) : Prop where
  distinct : cell.Distinct
  ring : Tickets (cell.scene.replay.records.map (·.seq)) (waiting Emission.toPush cell.calls)
    cell.scene.seq
  channel : Tickets (cell.scene.tx.sent.map (·.seq)) (waiting Emission.number cell.calls)
    cell.scene.seq

namespace InOrder

variable {cell cell' : SceneCell Text}

/-- A scene that has published nothing is in order. -/
theorem start (idle : cell.calls = []) (ring : cell.scene.replay.records = [])
    (channel : cell.scene.tx.sent = []) : cell.InOrder where
  distinct := by simp [Distinct, idle]
  ring := by simpa [idle, ring, waiting] using Tickets.nil _
  channel := by simpa [idle, channel, waiting] using Tickets.nil _

/-- A push keeps a part of the ring and appends the record. -/
theorem exists_kept (b : ReplayBuffer) (record : ReplayRecord) :
    ∃ kept, kept.Sublist b.records ∧ (b.push record).records = kept ++ [record] := by
  refine ⟨_, ?_, rfl⟩
  split
  · exact List.tail_sublist _
  · exact List.Sublist.refl _

/-- The locked steps of one call, at its place among the calls in progress. -/
theorem progress {caller : Caller} {e : Emission} {before after : List (Caller × Emission)}
    (inOrder : cell.InOrder) (split : cell.calls = before ++ (caller, e) :: after)
    (first : ∀ call ∈ before ++ after,
      (∀ n ∈ e.toPush, ∀ m ∈ call.2.toPush, n ≤ m) ∧ ∀ n ∈ e.toSend, ∀ m ∈ call.2.number, n ≤ m)
    (distinct : cell'.Distinct)
    (next : cell' = { scene := (e.step cell.scene).1
                      calls := before ++ after ++
                        ((e.step cell.scene).2.map fun e => (caller, e)).toList }) :
    cell'.InOrder := by
  have ring := inOrder.ring
  have channel := inOrder.channel
  rw [split] at ring channel
  replace ring := ring.perm (waiting_middle ..)
  replace channel := channel.perm (waiting_middle ..)
  have least (shows held : Emission → Option Nat) {seq : Nat} (shown : shows e = some seq)
      (ahead : ∀ call ∈ before ++ after, ∀ n ∈ shows e, ∀ m ∈ held call.2, n ≤ m) :
      ∀ m ∈ waiting held (before ++ after), seq ≤ m := by
    intro m hm
    obtain ⟨call, member, found⟩ := List.mem_filterMap.mp hm
    exact ahead call member seq shown m found
  subst next
  refine ⟨distinct, ?_, ?_⟩ <;> rw [waiting_moved] <;> obtain ⟨patches, cause, stage⟩ := e
  · cases stage with
    | write =>
        show Tickets _ (_ ++ []) _
        rw [List.append_nil]
        exact ring
    | number => exact ring.issue
    | push seq =>
        obtain ⟨kept, part, records⟩ := exists_kept cell.scene.replay ⟨seq, patches, cause⟩
        have shown := ring.reveal (least _ _ rfl fun call member => (first call member).1)
        show Tickets (List.map ReplayRecord.seq (cell.scene.replay.push _).records) (_ ++ []) _
        rw [records, List.map_append, List.append_nil]
        exact shown.forget ((part.map _).append_right [seq])
    | send seq =>
        show Tickets _ (_ ++ []) _
        rw [List.append_nil]
        exact ring
  · cases stage with
    | write =>
        show Tickets _ (_ ++ []) _
        rw [List.append_nil]
        exact channel
    | number => exact channel.issue
    | push seq => exact channel.perm (List.perm_append_comm ..)
    | send seq =>
        have shown := channel.reveal (least _ _ rfl fun call member => (first call member).2)
        show Tickets (List.map DeltaPayload.seq (cell.scene.tx.sent ++ [_])) (_ ++ []) _
        rw [List.map_append, List.append_nil]
        exact shown

theorem step {a : SceneAction} (inOrder : cell.InOrder) (ordered : cell.PublishesInOrder a)
    (h : cell.step a = some cell') : cell'.InOrder := by
  have distinct := inOrder.distinct.step h
  cases a with
  | emit caller pairs cause =>
      obtain ⟨_, rfl | ⟨patches, _, rfl⟩⟩ := step_emit h
      · exact inOrder
      · refine ⟨distinct, ?_, ?_⟩
        · show Tickets _ (waiting _ (cell.calls ++ [_])) _
          rw [waiting_concat _ _ _ rfl]
          exact inOrder.ring
        · show Tickets _ (waiting _ (cell.calls ++ [_])) _
          rw [waiting_concat _ _ _ rfl]
          exact inOrder.channel
  | progress caller =>
      obtain ⟨e, found, next⟩ := step_progress h
      obtain ⟨before, after, split, others, _⟩ := emission_eq_some inOrder.distinct found
      rw [others] at next
      refine inOrder.progress split (fun call member => ?_) distinct next
      exact ordered e found call (by rwa [others])
  | change =>
      cases h
      exact ⟨distinct, inOrder.ring.skip, inOrder.channel.skip⟩
  | reject code message =>
      cases h
      exact ⟨distinct, inOrder.ring, inOrder.channel⟩
  | withOperatorInputs specs =>
      cases h
      exact ⟨distinct, inOrder.ring, inOrder.channel⟩

end InOrder
end SceneCell

/-! ## Receivers -/

/-- What was received is a part of what was sent before the receiver's position. -/
def Receiver.Hears (tx : Broadcast DeltaPayload) (receiver : Receiver) : Prop :=
  receiver.received.Sublist (tx.sent.take receiver.next)

namespace Receiver

variable {tx tx' : Broadcast DeltaPayload} {receiver : Receiver}

theorem Hears.grow (hears : receiver.Hears tx) {more : List DeltaPayload}
    (grown : tx'.sent = tx.sent ++ more) : receiver.Hears tx' := by
  refine List.Sublist.trans hears ?_
  rw [grown, List.take_append]
  exact List.sublist_append_left ..

theorem Hears.recv (hears : receiver.Hears tx) : (receiver.recv tx).Hears tx := by
  unfold Receiver.recv
  split
  · next p next received =>
    show (receiver.received ++ [p]).Sublist (tx.sent.take next)
    rw [Broadcast.take_succ_of_recv received]
    exact hears.append_right [p]
  · next missed next lagged =>
    obtain ⟨behind, _, rfl⟩ := Broadcast.recv_eq_lagged.mp lagged
    refine List.Sublist.trans hears (List.take_sublist_take_left ?_)
    show receiver.next ≤ tx.sent.length - tx.capacity
    omega
  · exact hears

end Receiver

namespace Audience

def step (w : Audience Text) : AudienceAction → Option (Audience Text)
  | .scene a => (w.cell.step a).map fun cell => { w with cell }
  | .subscribe i => some { w with
      receivers := Function.update w.receivers i (some { next := w.cell.scene.tx.subscribe }) }
  | .recv i => (w.receivers i).map fun receiver =>
      { w with receivers := Function.update w.receivers i (some (receiver.recv w.cell.scene.tx)) }

/-- The emissions show their numbers in turn. -/
def PublishesInOrder (w : Audience Text) : AudienceAction → Prop
  | .scene a => w.cell.PublishesInOrder a
  | .subscribe _ | .recv _ => True

instance (w : Audience Text) : (a : AudienceAction) → Decidable (w.PublishesInOrder a)
  | .scene a => inferInstanceAs (Decidable (w.cell.PublishesInOrder a))
  | .subscribe _ | .recv _ => isTrue trivial

structure InOrder (w : Audience Text) : Prop where
  cell : w.cell.InOrder
  heard : ∀ i receiver, w.receivers i = some receiver → receiver.Hears w.cell.scene.tx

variable {w w' : Audience Text}

/-- A channel only grows. -/
theorem sent_of_step {cell cell' : SceneCell Text} {a : SceneAction}
    (h : cell.step a = some cell') :
    ∃ more, cell'.scene.tx.sent = cell.scene.tx.sent ++ more := by
  cases a with
  | emit caller pairs cause =>
      obtain ⟨_, rfl | ⟨patches, _, rfl⟩⟩ := SceneCell.step_emit h <;>
        exact ⟨[], (List.append_nil _).symm⟩
  | progress caller =>
      obtain ⟨⟨patches, cause, stage⟩, _, rfl⟩ := SceneCell.step_progress h
      cases stage with
      | send seq => exact ⟨[_], rfl⟩
      | write | number | push => exact ⟨[], (List.append_nil _).symm⟩
  | change | reject | withOperatorInputs =>
      cases h
      exact ⟨[], (List.append_nil _).symm⟩

theorem heard_update {tx : Broadcast DeltaPayload} {receivers : Nat → Option Receiver} {i : Nat}
    {receiver : Receiver} (heard : ∀ j r, receivers j = some r → r.Hears tx)
    (new : receiver.Hears tx) :
    ∀ j r, Function.update receivers i (some receiver) j = some r → r.Hears tx := by
  intro j r found
  by_cases same : j = i
  · subst same
    rw [Function.update_self] at found
    cases found
    exact new
  · rw [Function.update_of_ne same] at found
    exact heard j r found

theorem InOrder.step {a : AudienceAction} (inOrder : w.InOrder) (ordered : w.PublishesInOrder a)
    (h : w.step a = some w') : w'.InOrder := by
  cases a with
  | scene a =>
      obtain ⟨cell, stepped, rfl⟩ := Option.map_eq_some_iff.mp h
      obtain ⟨more, grown⟩ := sent_of_step stepped
      exact ⟨inOrder.cell.step ordered stepped,
        fun i receiver found => (inOrder.heard i receiver found).grow grown⟩
  | subscribe i =>
      cases h
      exact ⟨inOrder.cell, heard_update inOrder.heard (List.nil_sublist _)⟩
  | recv i =>
      obtain ⟨listener, listening, rfl⟩ := Option.map_eq_some_iff.mp h
      exact ⟨inOrder.cell,
        heard_update inOrder.heard (inOrder.heard i listener listening).recv⟩

/-- In every run in which no emission is overtaken between its number and its record or
its delta, the ring is in the order of the numbers, and every receiver gets its deltas
in that order. -/
theorem numbers_increase {start stop : Audience Text} {schedule : List AudienceAction}
    (idle : start.cell.calls = []) (ring : start.cell.scene.replay.records = [])
    (channel : start.cell.scene.tx.sent = []) (alone : ∀ i, start.receivers i = none)
    (ordered : Along step PublishesInOrder start schedule)
    (reach : run step start schedule = some stop) :
    stop.cell.scene.replay.records.Pairwise (fun r r' => r.seq < r'.seq) ∧
      ∀ i receiver, stop.receivers i = some receiver →
        receiver.received.Pairwise fun p q => p.seq < q.seq := by
  have initially : start.InOrder :=
    ⟨SceneCell.InOrder.start idle ring channel, fun i receiver found => by
      rw [alone i] at found
      cases found⟩
  have finally_ : stop.InOrder :=
    ordered.invariant (fun w a w' inOrder condition h => inOrder.step condition h) initially reach
  refine ⟨List.pairwise_map.mp finally_.cell.ring.increasing, fun i receiver found => ?_⟩
  have sent := List.pairwise_map.mp finally_.cell.channel.increasing
  exact (sent.sublist (List.take_sublist ..)).sublist (finally_.heard i receiver found)

private def silentScene : Audience Unit where
  cell := { scene := Scene.new "studio" "v1" }
  receivers := fun _ => none

/-- Two emissions, up to their numbers; the first one has the smaller number. -/
private def twoNumbers : List AudienceAction :=
  .subscribe 0 :: [.emit (.adapter 0) [("lamp", .bool true)] none,
    .emit (.adapter 1) [("fan", .bool true)] none, .progress (.adapter 0), .progress (.adapter 1),
    .progress (.adapter 0), .progress (.adapter 1)].map .scene

private def publications (callers : List Nat) : List AudienceAction :=
  callers.map fun n => .scene (.progress (.adapter n))

private def inTurn : List AudienceAction :=
  twoNumbers ++ publications [0, 1, 0, 1] ++ [.recv 0, .recv 0]

private def overtaken : List AudienceAction :=
  twoNumbers ++ publications [1, 1, 0, 0] ++ [.recv 0, .recv 0]

/-- The numbers in the ring, and those that the receiver got. -/
private def numbers (w : Audience Unit) : List Nat × Option (List Nat) :=
  (w.cell.scene.replay.records.map (·.seq), (w.receivers 0).map fun r => r.received.map (·.seq))

theorem numbers_increase_inTurn :
    ∃ stop, run step silentScene inTurn = some stop ∧ numbers stop = ([2, 3], some [2, 3]) ∧
      stop.cell.scene.replay.records.Pairwise fun r r' => r.seq < r'.seq := by
  have ends : (run step silentScene inTurn).any (fun stop =>
      numbers stop = ([2, 3], some [2, 3])) = true := by
    decide
  obtain ⟨stop, reach, seen⟩ := exists_run_of_any ends
  exact ⟨stop, reach, seen,
    (numbers_increase rfl rfl rfl (fun _ => rfl) (by decide) reach).1⟩

/-- An emission that is overtaken shows the smaller number last, in the ring and to a
receiver that does not lag. -/
theorem numbers_decrease_of_overtaken :
    ∃ stop, run step silentScene overtaken = some stop ∧ numbers stop = ([3, 2], some [3, 2]) ∧
      ¬stop.cell.scene.replay.records.Pairwise (fun r r' => r.seq < r'.seq) ∧
      ∃ receiver, stop.receivers 0 = some receiver ∧
        ¬receiver.received.Pairwise fun p q => p.seq < q.seq := by
  have ends : (run step silentScene overtaken).any (fun stop =>
      numbers stop = ([3, 2], some [3, 2]) ∧
        ¬stop.cell.scene.replay.records.Pairwise (fun r r' => r.seq < r'.seq) ∧
        (stop.receivers 0).any (fun receiver =>
          ¬receiver.received.Pairwise fun p q => p.seq < q.seq)) = true := by
    decide
  obtain ⟨stop, reach, seen, ring, unordered⟩ := exists_run_of_any ends
  obtain ⟨receiver, found, broken⟩ := (Option.any_eq_true ..).mp unordered
  exact ⟨stop, reach, seen, ring, receiver, found, by simpa using broken⟩

end Audience
end Lumencast.Server
