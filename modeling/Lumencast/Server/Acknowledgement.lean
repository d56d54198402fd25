import Lumencast.Server.PublishedOnce

/-!
# Every input comes back to its sender once

A connection listens to the scene that its inputs go to, so that it hears its own
deltas among those of others; a runtime reads them as acknowledgements. As long as
no scene swap moves the connection, each input that was let through comes back
in exactly one delta, in the order of the inputs, or is still on its way.

`Approaches` is the invariant of a connection that has not opened yet: it has submitted
nothing. `Echoes` is the one of a connection that has: what it has submitted so far lies in
the part of the record that it has heard since, in the part that waits in the channel, or in
an emission that is under way.
-/

namespace Lumencast.Server

open Foundation Protocol

variable {Text : Type}

theorem ofCaller_append (caller : Caller) (front rest : List (Caller × DeltaPayload)) :
    ofCaller caller (front ++ rest) = ofCaller caller front ++ ofCaller caller rest :=
  List.filterMap_append

/-- A connection that does not listen to a scene lets nothing through to it. -/
theorem Connection.admits_eq_nil {T : TextLayer Text} {inner : ServerInner Text}
    {conn : Connection Text} {amb : Ambient} {r : SceneRef} (apart : conn.link ≠ .attached r) :
    conn.admits T inner amb r = [] := by
  unfold admits
  split
  · next q t rest phase current _ =>
    refine if_neg fun same => apart ?_
    rw [link, phase, current, same]
    rfl
  · rfl

/-- The next step of the handler does not take the connection off its scene. -/
def Connection.staysPut (conn : Connection Text) : Bool :=
  match conn.phase with
  | .advancing _ => false
  | _ => true

/-- Nothing that the connection `c` submitted to a scene is recorded or under way. -/
structure Unheard (c : Nat) (cell : SceneCell Text) (record : List (Caller × DeltaPayload)) :
    Prop where
  recorded : ofCaller (.handler c) record = []
  underway : cell.underway (.handler c) = []

/-- The record behind the subscription, in the part that was delivered and the part that waits.
In front of it stands nothing of the connection itself. Of deltas, the connection was sent
`replayed` and then the part that was delivered. -/
structure Delivered (c : Nat) (base : List DeltaPayload) (replayed : List Delta)
    (conn : Connection Text) (record before delivered waiting : List (Caller × DeltaPayload)) :
    Prop where
  split : record = before ++ delivered ++ waiting
  others : ofCaller (.handler c) before = []
  position : conn.deltas = base.length + before.length + delivered.length
  sent : deltasOf conn.outbox = replayed ++ delivered.map fun sent => sent.2.frame

/-- A connection that opens on the scene `r`, or has not chosen a scene. -/
def Approaches (r : SceneRef) (c : Nat) (base : List DeltaPayload) (cell : SceneCell Text)
    (conn : Connection Text) (record : List (Caller × DeltaPayload)) : Prop :=
  match conn.link with
  | .detached => Unheard c cell record
  | .opening q | .reading q _ => q = r → Unheard c cell record ∧
      ∃ before waiting, record = before ++ waiting ∧
        conn.deltas = base.length + before.length
  | .attached _ | .closed => True
  | .crossing _ | .crossingAt .. | .landing _ => False

/-- Where the submissions of a connection are that has opened on the scene `r`. -/
def Echoes (r : SceneRef) (c : Nat) (base : List DeltaPayload)
    (before : List (Caller × DeltaPayload)) (replayed : List Delta) (conn : Connection Text)
    (record : List (Caller × DeltaPayload)) : Prop :=
  match conn.link with
  | .attached q => q = r ∧ ∃ delivered waiting,
      Delivered c base replayed conn record before delivered waiting
  | .closed => True
  | .detached | .opening _ | .reading .. | .crossing _ | .crossingAt .. | .landing _ => False

namespace Delivered

variable {c : Nat} {base : List DeltaPayload} {replayed : List Delta}
  {conn conn' : Connection Text} {record before delivered waiting : List (Caller × DeltaPayload)}

/-- Deltas that are broadcast wait. -/
theorem broadcast (parts : Delivered c base replayed conn record before delivered waiting)
    (more : List (Caller × DeltaPayload)) :
    Delivered c base replayed conn (record ++ more) before delivered (waiting ++ more) :=
  { parts with split := by rw [parts.split, List.append_assoc] }

theorem congr (parts : Delivered c base replayed conn record before delivered waiting)
    (deltas : conn'.deltas = conn.deltas) (outbox : deltasOf conn'.outbox = deltasOf conn.outbox) :
    Delivered c base replayed conn' record before delivered waiting :=
  { parts with
    position := deltas.trans parts.position
    sent := outbox.trans parts.sent }

/-- The subscription of a connection that begins to deliver. -/
theorem start {cell : SceneCell Text} (unheard : Unheard c cell record)
    (split : record = before ++ waiting) (position : conn.deltas = base.length + before.length) :
    Delivered c base (deltasOf conn.outbox) conn record before [] waiting where
  split := by rw [split, List.append_nil]
  others := by
    have nothing := unheard.recorded
    rw [split, ofCaller_append] at nothing
    exact (List.append_eq_nil_iff.mp nothing).1
  position := position
  sent := (List.append_nil _).symm

/-- What waits is what the receiver has not heard. -/
theorem pending (parts : Delivered c base replayed conn record before delivered waiting)
    {ch : Broadcast DeltaPayload} (channel : ch.sent = base ++ record.map (·.2)) :
    ch.pending conn.deltas = waiting.map (·.2) := by
  rw [Broadcast.pending, channel, parts.split, List.map_append, ← List.append_assoc]
  refine List.drop_left' ?_
  rw [parts.position]
  simp [Nat.add_assoc]

/-- The next delta of the channel is the first one that waits. -/
theorem deliver (parts : Delivered c base replayed conn record before delivered waiting)
    {ch : Broadcast DeltaPayload} (channel : ch.sent = base ++ record.map (·.2))
    {p : DeltaPayload} {next : Nat} (received : ch.recv conn.deltas = .message p next)
    (deltas : conn'.deltas = next) (outbox : conn'.outbox = conn.outbox ++ [.delta p.frame]) :
    ∃ sent rest, Delivered c base replayed conn' record before (delivered ++ [sent]) rest := by
  have front := Broadcast.pending_of_recv received
  rw [parts.pending channel, List.map_eq_cons_iff] at front
  obtain ⟨sent, rest, rfl, rfl, _⟩ := front
  obtain ⟨_, _, next_eq⟩ := Broadcast.recv_eq_message.mp received
  refine ⟨sent, rest, ⟨by simp [parts.split], parts.others, ?_, ?_⟩⟩
  · rw [deltas, next_eq, parts.position, List.length_append, List.length_singleton, Nat.add_assoc]
  · rw [outbox, deltasOf_append, parts.sent, List.map_append, List.append_assoc]
    rfl

end Delivered

namespace Approaches

variable {r : SceneRef} {c : Nat} {base : List DeltaPayload} {cell cell' : SceneCell Text}
  {conn conn' : Connection Text} {record : List (Caller × DeltaPayload)}

theorem congr (approaches : Approaches r c base cell conn record) (link : conn'.link = conn.link)
    (deltas : conn'.deltas = conn.deltas) : Approaches r c base cell conn' record := by
  rw [Approaches, link, deltas]
  exact approaches

/-- A connection that has opened, or that is closed. -/
theorem opened {q : SceneRef} (link : conn.link = .attached q ∨ conn.link = .closed) :
    Approaches r c base cell conn record := by
  rcases link with link | link <;> rw [Approaches, link] <;> trivial

/-- A step of the scene, before which the connection has submitted nothing. -/
theorem scene_step (approaches : Approaches r c base cell conn record)
    {more : List (Caller × DeltaPayload)}
    (unheard : conn.link ≠ .attached r → Unheard c cell record → Unheard c cell' (record ++ more)) :
    Approaches r c base cell' conn (record ++ more) := by
  unfold Approaches at approaches ⊢
  cases here : conn.link with
  | opening q | reading q seq =>
      rw [here] at approaches
      intro same
      obtain ⟨nothing, before, waiting, split, position⟩ := approaches same
      refine ⟨unheard (by simp [here]) nothing, before, waiting ++ more, ?_, position⟩
      rw [split, List.append_assoc]
  | detached =>
      rw [here] at approaches
      exact unheard (by simp [here]) approaches
  | attached | closed => trivial
  | crossing | crossingAt | landing =>
      rw [here] at approaches
      exact approaches

/-- A step of the handler that starts no swap. -/
theorem move {inner : ServerInner Text} {o : Outcome Text}
    (approaches : Approaches r c base cell conn record) (stays : conn.staysPut = true)
    (channel : o.conn.link.scene = some r →
      (inner.heap r).scene.tx.sent = base ++ record.map (·.2))
    (h : Connection.Move inner c conn o) : Approaches r c base cell o.conn record := by
  cases h with
  | still link outbox deltas => exact approaches.congr link deltas
  | pong before link | deliver before link | resume before phase link
  | snapshot before link => exact opened (.inl link)
  | close link | deny before link => exact opened (q := r) (.inr link)
  | @refuse q reply stop before phase link =>
      cases stop with
      | true => exact opened (q := q) (.inr link)
      | false => exact opened (.inl link)
  | subscribe before link outbox deltas =>
      rw [Approaches, before] at approaches
      rw [Approaches, link]
      rintro rfl
      refine ⟨approaches, record, [], (List.append_nil _).symm, ?_⟩
      rw [deltas, channel (by rw [link]; rfl), List.length_append, List.length_map]
  | readSeq before link outbox deltas =>
      rw [Approaches, before] at approaches
      rw [Approaches, link, deltas]
      exact approaches
  | leave before phase =>
      rw [Connection.staysPut, phase] at stays
      cases stays
  | crossSeq before | crossSnapshot before | land before =>
      rw [Approaches, before] at approaches
      exact approaches.elim

/-- The step of the handler that opens the connection: it is sent a snapshot, or what the ring
has above a number. -/
theorem arrive {inner : ServerInner Text} {o : Outcome Text}
    (approaches : Approaches r c base cell conn record) (quiet : conn.Quiet)
    (outside : conn.link ≠ .attached r) (inside : o.conn.link = .attached r)
    (h : Connection.Move inner c conn o) :
    Unheard c cell record ∧
      (∃ before, before <+: record ∧
        Echoes r c base before (deltasOf o.conn.outbox) o.conn record) ∧
      (deltasOf o.conn.outbox = [] ∨ o.effect = none ∧ ∃ since, deltasOf o.conn.outbox =
        ((inner.heap r).scene.replaySince since).records.map ReplayRecord.frame) := by
  have start {q : SceneRef} (link : o.conn.link = .attached q)
      (deltas : o.conn.deltas = conn.deltas)
      (nothing : q = r → Unheard c cell record ∧ ∃ before waiting,
        record = before ++ waiting ∧ conn.deltas = base.length + before.length) :
      Unheard c cell record ∧ ∃ before, before <+: record ∧
        Echoes r c base before (deltasOf o.conn.outbox) o.conn record := by
    obtain rfl : q = r := Link.attached.inj (link.symm.trans inside)
    obtain ⟨unheard, before, waiting, split, position⟩ := nothing rfl
    refine ⟨unheard, before, ⟨waiting, split.symm⟩, ?_⟩
    rw [Echoes, link]
    exact ⟨rfl, [], waiting, .start unheard split (deltas.trans position)⟩
  cases h with
  | @resume q since before phase link covered outbox deltas effect =>
      rw [Approaches, before] at approaches
      obtain rfl : q = r := Link.attached.inj (link.symm.trans inside)
      obtain ⟨unheard, echoes⟩ := start link deltas approaches
      refine ⟨unheard, echoes, .inr ⟨effect, since, ?_⟩⟩
      rw [outbox, quiet.empty_of_opening before, List.nil_append, deltasOf, List.filterMap_map]
      exact congrFun List.filterMap_eq_map' _
  | snapshot before link clock outbox deltas =>
      rw [Approaches, before] at approaches
      obtain ⟨unheard, echoes⟩ := start link deltas approaches
      refine ⟨unheard, echoes, .inl ?_⟩
      rw [outbox, quiet.empty_of_reading before]
      rfl
  | still link => exact absurd (link.symm.trans inside) outside
  | close link | deny before link | subscribe before link | readSeq before link
  | crossSeq before link | crossSnapshot before link => cases link.symm.trans inside
  | pong before link | deliver before link =>
      obtain rfl := Link.attached.inj (link.symm.trans inside)
      exact absurd before outside
  | @refuse q reply stop before phase link =>
      cases stop with
      | true => cases link.symm.trans inside
      | false =>
          obtain rfl := Link.attached.inj (link.symm.trans inside)
          exact absurd before outside
  | leave before phase link => cases link.symm.trans inside
  | land before =>
      rw [Approaches, before] at approaches
      exact approaches.elim

end Approaches

namespace Echoes

variable {r : SceneRef} {c : Nat} {base : List DeltaPayload} {replayed : List Delta}
  {conn conn' : Connection Text} {before record : List (Caller × DeltaPayload)}

theorem congr (echoes : Echoes r c base before replayed conn record) (link : conn'.link = conn.link)
    (deltas : conn'.deltas = conn.deltas) (outbox : deltasOf conn'.outbox = deltasOf conn.outbox) :
    Echoes r c base before replayed conn' record := by
  unfold Echoes at echoes ⊢
  rw [link]
  cases here : conn.link with
  | attached q =>
      rw [here] at echoes
      obtain ⟨same, delivered, waiting, parts⟩ := echoes
      exact ⟨same, delivered, waiting, parts.congr deltas outbox⟩
  | detached | opening | reading | crossing | crossingAt | landing | closed =>
      rw [here] at echoes
      exact echoes

/-- A step of the scene. -/
theorem scene_step (echoes : Echoes r c base before replayed conn record)
    (more : List (Caller × DeltaPayload)) :
    Echoes r c base before replayed conn (record ++ more) := by
  unfold Echoes at echoes ⊢
  cases here : conn.link with
  | attached q =>
      rw [here] at echoes
      obtain ⟨same, delivered, waiting, parts⟩ := echoes
      exact ⟨same, delivered, waiting ++ more, parts.broadcast more⟩
  | detached | opening | reading | crossing | crossingAt | landing | closed =>
      rw [here] at echoes
      exact echoes

/-- A step of the handler that starts no swap. -/
theorem move {inner : ServerInner Text} {o : Outcome Text}
    (echoes : Echoes r c base before replayed conn record) (stays : conn.staysPut = true)
    (channel : conn.link = .attached r →
      (inner.heap r).scene.tx.sent = base ++ record.map (·.2))
    (h : Connection.Move inner c conn o) : Echoes r c base before replayed o.conn record := by
  have closed (link : o.conn.link = .closed) : Echoes r c base before replayed o.conn record := by
    rw [Echoes, link]
    trivial
  cases h with
  | still link outbox deltas => exact echoes.congr link deltas (by rw [outbox])
  | pong attached link f outbox deltas =>
      refine echoes.congr (link.trans attached.symm) deltas ?_
      rw [outbox, deltasOf_append]
      exact List.append_nil _
  | close link | deny _ link => exact closed link
  | @refuse q reply stop attached phase link clock outbox deltas =>
      cases stop with
      | true => exact closed link
      | false =>
          refine echoes.congr (link.trans attached.symm) deltas ?_
          rw [outbox, deltasOf_append]
          exact List.append_nil _
  | deliver attached link received outbox deltas =>
      rw [Echoes, attached] at echoes
      obtain ⟨rfl, delivered, waiting, parts⟩ := echoes
      obtain ⟨sent, rest, parts⟩ := parts.deliver (channel attached) received deltas outbox
      rw [Echoes, link]
      exact ⟨rfl, delivered ++ [sent], rest, parts⟩
  | leave _ phase =>
      rw [Connection.staysPut, phase] at stays
      cases stays
  | subscribe apart | resume apart | readSeq apart | snapshot apart | crossSeq apart
  | crossSnapshot apart | land apart =>
      rw [Echoes, apart] at echoes
      exact echoes.elim

end Echoes

namespace World

variable {P : Platform Text} {w w' : World Text} {a : Action Text} {r : SceneRef} {c : Nat}
  {base : List DeltaPayload} {before record : List (Caller × DeltaPayload)}

theorem submissions_eq_nil (h : w.step P a = some w') (apart : (w.conns c).link ≠ .attached r) :
    w.submissions P r (.handler c) a = [] := by
  cases a with
  | scene q sa =>
      simp only [step] at h
      split at h
      · next allowed =>
        have other : sa.submissions (.handler c) = [] := by
          cases sa with
          | emit caller pairs cause =>
              cases caller with
              | adapter n => rfl
              | handler d => simp [SceneAction.isExternal] at allowed
          | progress | change | reject | withOperatorInputs => rfl
        rw [submissions, other, ite_self]
      · cases h
  | handler d amb =>
      rw [submissions]
      split
      · next same =>
        cases same
        exact Connection.admits_eq_nil apart
      · rfl
  | request | serve | receive | hangup => rfl

/-- What the connection has submitted is recorded or under way afterwards if it was before. -/
theorem Recorded.unheard_step (recorded : w.Recorded r base record) (h : w.step P a = some w')
    (apart : (w.conns c).link ≠ .attached r) (unheard : Unheard c (w.inner.heap r) record) :
    Unheard c (w'.inner.heap r) (record ++ w.broadcasts r a) := by
  have kept := recorded.ready.underway_step h (.handler c)
  rw [unheard.underway, submissions_eq_nil h apart, List.append_nil, eq_comm,
    List.append_eq_nil_iff] at kept
  refine ⟨?_, kept.2⟩
  rw [ofCaller_append, unheard.recorded, kept.1, List.append_nil]

/-- What `c` hears on the scene `r`: the channel is its base with the record behind it. -/
theorem Recorded.sent {w : World Text} (recorded : w.Recorded r base record)
    (known : r < w.inner.nextRef) :
    (w.inner.heap r).scene.tx.sent = base ++ record.map (·.2) := by
  have channel := recorded.channel
  rwa [World.channel, if_pos known] at channel

/-- The scene `r` with its record, and the connection `c` that has not opened on it. -/
structure Arrives (r : SceneRef) (c : Nat) (base : List DeltaPayload) (w : World Text)
    (record : List (Caller × DeltaPayload)) : Prop where
  recorded : w.Recorded r base record
  quiet : (w.conns c).Quiet
  approaches : Approaches r c base (w.inner.heap r) (w.conns c) record

theorem Arrives.step (arrives : w.Arrives r c base record)
    (stays : w.AtHandler c (fun _ conn => conn.staysPut = true) a)
    (h : w.step P a = some w') : w'.Arrives r c base (record ++ w.broadcasts r a) := by
  have recorded := arrives.recorded
  have scene : Approaches r c base (w'.inner.heap r) (w.conns c) (record ++ w.broadcasts r a) :=
    arrives.approaches.scene_step fun apart => recorded.unheard_step h apart
  rcases conn_cases h c with same | ⟨m, _, same⟩ | ⟨_, same⟩ | ⟨amb, o, rfl, stepped, same, _⟩
  · exact ⟨recorded.step h, same ▸ arrives.quiet, same ▸ scene⟩
  · refine ⟨recorded.step h, ?_, ?_⟩ <;> rw [same]
    · exact arrives.quiet
    · exact scene.congr rfl rfl
  · refine ⟨recorded.step h, ?_, ?_⟩ <;> rw [same] <;> trivial
  · have move := Connection.move_of_step stepped
    refine ⟨recorded.step h, ?_, ?_⟩ <;> rw [same]
    · exact arrives.quiet.move move
    · refine scene.move (stays rfl) (fun linked => ?_) move
      rw [broadcasts, List.append_nil]
      exact recorded.sent (recorded.ready.wf.link_of_step h (same ▸ linked))

/-- The scene `r` with its record, and the connection `c` whose submissions are in it. -/
structure Acknowledges (r : SceneRef) (c : Nat) (base : List DeltaPayload)
    (before : List (Caller × DeltaPayload)) (replayed : List Delta) (w : World Text)
    (record : List (Caller × DeltaPayload)) : Prop where
  recorded : w.Recorded r base record
  echoes : Echoes r c base before replayed (w.conns c) record

theorem Acknowledges.step {replayed : List Delta}
    (acknowledges : w.Acknowledges r c base before replayed record)
    (stays : w.AtHandler c (fun _ conn => conn.staysPut = true) a)
    (h : w.step P a = some w') :
    w'.Acknowledges r c base before replayed (record ++ w.broadcasts r a) := by
  have recorded := acknowledges.recorded
  refine ⟨recorded.step h, ?_⟩
  have scene := acknowledges.echoes.scene_step (w.broadcasts r a)
  rcases conn_cases h c with same | ⟨m, _, same⟩ | ⟨_, same⟩ | ⟨amb, o, rfl, stepped, same, _⟩
  · rw [same]
    exact scene
  · rw [same]
    exact scene.congr rfl rfl rfl
  · rw [same]
    trivial
  · rw [same]
    refine scene.move (stays rfl) (fun linked => ?_) (Connection.move_of_step stepped)
    rw [broadcasts, List.append_nil]
    exact recorded.sent (recorded.ready.wf.current (Connection.current_of_attached linked))

/-- The step with which the connection opens. -/
theorem Arrives.opens (arrives : w.Arrives r c base record)
    (outside : (w.conns c).link ≠ .attached r) (inside : (w'.conns c).link = .attached r)
    (h : w.step P a = some w') :
    Unheard c (w.inner.heap r) record ∧
      (∃ before, before <+: record ∧ w'.Acknowledges r c base before
        (deltasOf (w'.conns c).outbox) (record ++ w.broadcasts r a)) ∧
      (deltasOf (w'.conns c).outbox = [] ∨ ∃ since, deltasOf (w'.conns c).outbox =
        ((w'.inner.heap r).scene.replaySince since).records.map ReplayRecord.frame) := by
  have recorded := arrives.recorded.step h
  rcases conn_cases h c with same | ⟨m, _, same⟩ | ⟨_, same⟩ | ⟨amb, o, rfl, stepped, same, effect⟩
  · rw [same] at inside
    exact absurd inside outside
  · rw [same] at inside
    exact absurd inside outside
  · rw [same] at inside
    cases inside
  · rw [same] at inside
    obtain ⟨unheard, ⟨before, early, echoes⟩, sent⟩ :=
      arrives.approaches.arrive arrives.quiet outside inside (Connection.move_of_step stepped)
    rw [same]
    refine ⟨unheard, ⟨before, early, recorded, same ▸ echoes.scene_step _⟩, sent.imp_right ?_⟩
    rintro ⟨silent, since, replayed⟩
    rw [silent] at effect
    exact ⟨since, Option.some.inj effect ▸ replayed⟩

end World

end Lumencast.Server
