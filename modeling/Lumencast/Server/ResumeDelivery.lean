import Lumencast.Server.NoLoss
import Lumencast.Server.Publication

/-!
# What a resume delivers

A resumed connection gets its deltas from two overlapping sources: the records that the
ring holds when it is asked, and the queue that it subscribed to before. `Played` says what
it was sent, as parts of the history of the scene: the ring has a front part of it, and the
queue goes on from a position inside that part. The client keeps a delta when its number is
above every number seen before, and what it keeps is one stretch of the history.
-/

namespace Lumencast.Server

open Foundation Protocol

variable {Text : Type}

/-- Every number from 2 up to the counter was taken by an emission. -/
def Unbroken (s : Scene Text) (es : List Emission) : Prop :=
  allocated s es = numbersAbove 1 s.seq

namespace SceneCell

/-- The numbers of the history follow one another. -/
def Unbroken (cell : SceneCell Text) : Prop :=
  1 ≤ cell.scene.seq ∧ cell.history.map (·.seq) = numbersAbove 1 cell.scene.seq

theorem Unbroken.step {cell cell' : SceneCell Text} {a : SceneAction} (unbroken : cell.Unbroken)
    (published : cell.Published) (ordered : cell.PublishesInOrder a) (calm : a ≠ .change)
    (h : cell.step a = some cell') : cell'.Unbroken := by
  obtain ⟨started, numbers⟩ := unbroken
  have history := (published.publishes ordered h).history
  rcases seq_of_step h with ⟨nothing, seq⟩ | ⟨_, _, change⟩ | ⟨p, new, number, seq⟩
  · rw [nothing, List.append_nil] at history
    rw [Unbroken, history, seq]
    exact ⟨started, numbers⟩
  · exact absurd change calm
  · rw [new] at history
    rw [Unbroken, history, seq, List.map_append, numbers, List.map_singleton, number]
    exact ⟨Nat.le_succ_of_le started, (numbersAbove_succ started).symm⟩

theorem length_sent_le_history (cell : SceneCell Text) :
    cell.scene.tx.sent.length ≤ cell.history.length :=
  (front_of_inSight Emission.payload cell).length_le

/-- What a connection that resumed at `since` was sent: what the ring had of the first
`split` deltas, and the deltas of the channel from `start` up to `next`. -/
structure Played (since start split next : Nat) (frames : List Delta) (cell : SceneCell Text) :
    Prop where
  before : start ≤ split
  inside : split ≤ cell.history.length
  ordered : start ≤ next
  within : next ≤ cell.scene.tx.sent.length
  frames : frames = (((cell.history.take split).filter fun p => since < p.seq) ++
    (cell.history.take next).drop start).map DeltaPayload.frame

namespace Played

variable {since start split next : Nat} {frames : List Delta} {cell cell' : SceneCell Text}

/-- The records of a covered resume, with the queue subscribed to before. -/
theorem replay (published : cell.Published) (within : start ≤ cell.scene.tx.sent.length)
    (covered : (cell.scene.replaySince since).covered = true) :
    Played since start cell.recorded.length start
      ((cell.scene.replaySince since).records.map ReplayRecord.frame) cell where
  before := Nat.le_trans within (front_of_inSight Emission.recorded cell).length_le
  inside := published.front.length_le
  ordered := Nat.le_refl start
  within := within
  frames := by
    have records : (cell.scene.replaySince since).records =
        (cell.recorded.map DeltaPayload.record).filter fun r => since < r.seq :=
      published.window.records_of_covered published.positive
        (List.pairwise_map.mpr published.recorded_increasing) covered
    have looked : cell.history.take cell.recorded.length = cell.recorded :=
      (List.prefix_iff_eq_take.mp published.front).symm
    have nothing : (cell.history.take start).drop start = [] :=
      List.drop_eq_nil_of_le (List.length_take_le ..)
    rw [records, looked, nothing, List.append_nil, List.filter_map, List.map_map]
    rfl

/-- The scene goes on. -/
theorem grow (played : Played since start split next frames cell) {more : List DeltaPayload}
    (history : cell'.history = cell.history ++ more)
    (sent : cell.scene.tx.sent.length ≤ cell'.scene.tx.sent.length) :
    Played since start split next frames cell' := by
  have within := Nat.le_trans played.within cell.length_sent_le_history
  refine ⟨played.before, ?_, played.ordered, Nat.le_trans played.within sent, ?_⟩
  · rw [history, List.length_append]
    exact Nat.le_add_right_of_le played.inside
  · rw [history, List.take_append_of_le_length played.inside,
      List.take_append_of_le_length within]
    exact played.frames

/-- The next delta of the queue. -/
theorem deliver (played : Played since start split next frames cell) {p : DeltaPayload}
    {next' : Nat} (received : cell.scene.tx.recv next = .message p next') :
    Played since start split next' (frames ++ [p.frame]) cell := by
  have taken := Broadcast.take_succ_of_recv received
  obtain ⟨_, found, rfl⟩ := Broadcast.recv_eq_message.mp received
  have inside := (List.getElem?_eq_some_iff.mp found).1
  have reached : start ≤ (cell.scene.tx.sent.take next).length := by
    rw [List.length_take, Nat.min_eq_left played.within]
    exact played.ordered
  refine ⟨played.before, played.inside, Nat.le_succ_of_le played.ordered, inside, ?_⟩
  have front {k : Nat} (le : k ≤ cell.scene.tx.sent.length) :
      cell.history.take k = cell.scene.tx.sent.take k :=
    List.take_append_of_le_length le
  rw [played.frames, front inside, front played.within, taken,
    List.drop_append_of_le_length reached]
  simp

/-- What the client keeps is one stretch of the history. -/
theorem fresh_eq (played : Played since start split next frames cell)
    (published : cell.Published) : fresh Delta.seq since frames =
      ((cell.history.take (max split next)).filter fun p => since < p.seq).map
        DeltaPayload.frame := by
  rw [played.frames, fresh_map frame_seq,
    fresh_overlap published.increasing played.before played.inside]

/-- It has the numbers that follow the resume point. -/
theorem numbers (played : Played since start split next frames cell)
    (published : cell.Published) (unbroken : cell.Unbroken) (positive : 1 ≤ since) :
    let kept := fresh Delta.seq since frames
    kept.map (·.seq) = numbersAbove since (since + kept.length) := by
  intro kept
  have front : (fresh Delta.seq since frames).map (·.seq) <+:
      numbersAbove since cell.scene.seq := by
    have all : ((cell.history.filter fun p => since < p.seq).map (·.seq)) =
        numbersAbove since cell.scene.seq := by
      rw [← filter_numbersAbove positive, ← unbroken.2, List.filter_map]
      rfl
    rw [← all, played.fresh_eq published, List.map_map]
    exact ((List.take_prefix ..).filter _).map _
  have numbers := eq_numbersAbove_of_prefix front
  rwa [List.length_map] at numbers

/-- With no emission in progress and nothing queued, it is all that follows. -/
theorem drained (played : Played since start split next frames cell) (published : cell.Published)
    (idle : cell.calls = []) (all : cell.scene.tx.sent.length ≤ next) :
    fresh Delta.seq since frames =
      (cell.scene.tx.sent.filter fun p => since < p.seq).map DeltaPayload.frame := by
  have history := history_of_idle idle
  rw [played.fresh_eq published, history,
    List.take_of_length_le (Nat.le_trans all (Nat.le_max_right ..))]

end Played
end SceneCell

/-! ## A scene of the server -/

/-- With one emission in progress, none is overtaken. -/
theorem SceneCell.inTurn_of_serial {cell : SceneCell Text} (serial : cell.Serial)
    (a : SceneAction) : cell.InTurn a := by
  have distinct : cell.Distinct := by
    obtain ⟨scene, calls⟩ := cell
    match calls, serial with
    | [], _ => simp [Distinct]
    | [call], _ => simp [Distinct]
  cases a with
  | progress caller =>
      have alone {e : Emission} (found : cell.emission caller = some e) :
          cell.others caller = [] ∧ cell.calls.takeWhile (fun call => call.1 ≠ caller) = [] := by
        obtain ⟨before, after, split, others, earlier⟩ := emission_eq_some distinct found
        have length := serial
        rw [Serial, split, List.length_append, List.length_cons] at length
        have none_before : before = [] := List.length_eq_zero_iff.mp (by omega)
        have none_after : after = [] := List.length_eq_zero_iff.mp (by omega)
        rw [others, earlier, none_before, none_after]
        exact ⟨rfl, rfl⟩
      refine ⟨fun e found call member => ?_, fun e found _ earlier member => ?_⟩
      · rw [(alone found).1] at member
        cases member
      · rw [(alone found).2] at member
        cases member
  | emit | change | reject | withOperatorInputs => exact ⟨trivial, trivial⟩

/-- A step of a scene adds to its history and to its channel. -/
theorem SceneCell.Published.grows {cell cell' : SceneCell Text} {a : SceneAction}
    (published : cell.Published) (inTurn : cell.InTurn a) (h : cell.step a = some cell') :
    (∃ more, cell'.history = cell.history ++ more) ∧
      cell.scene.tx.sent.length ≤ cell'.scene.tx.sent.length := by
  obtain ⟨more, sent⟩ := Audience.sent_of_step h
  refine ⟨⟨_, (published.publishes inTurn.1 h).history⟩, ?_⟩
  rw [sent, List.length_append]
  exact Nat.le_add_right ..

namespace World

variable {P : Platform Text} {r : SceneRef} {w w' : World Text} {a : Action Text}

/-- No emission of the scene `r` is overtaken in this action. -/
def InTurnAt (r : SceneRef) (w : World Text) : Action Text → Prop
  | .scene q a => q = r → (w.inner.heap q).InTurn a
  | _ => True

instance (r : SceneRef) (w : World Text) : (a : Action Text) → Decidable (w.InTurnAt r a)
  | .scene q a => inferInstanceAs (Decidable (q = r → (w.inner.heap q).InTurn a))
  | .request .. | .serve _ | .receive .. | .handler .. | .hangup _ => isTrue trivial

theorem SerialAt.inTurnAt (serial : SerialAt r w) (a : Action Text) : w.InTurnAt r a := by
  cases a with
  | scene q a =>
      rintro rfl
      exact SceneCell.inTurn_of_serial serial a
  | _ => trivial

/-- What one action does to a scene on which no emission is overtaken. -/
theorem inTurn_cases (inTurn : w.InTurnAt r a) (h : w.step P a = some w') :
    w'.inner.heap r = w.inner.heap r ∨
      (r = w.inner.nextRef ∧ ∃ reg : Registration, w'.inner.heap r = { scene := reg.scene P }) ∨
      ∃ sa, (w.inner.heap r).step sa = some (w'.inner.heap r) ∧ (w.inner.heap r).InTurn sa ∧
        (sa = .change → ∃ c, w.Leaves a c r) := by
  rcases scene_cases h r with same | created | ⟨sa, stepped, leaves, progresses⟩
  · exact .inl same
  · exact .inr (.inl created)
  · refine .inr (.inr ⟨sa, stepped, ?_, leaves⟩)
    cases sa with
    | progress caller =>
        rw [progresses caller rfl] at inTurn
        exact inTurn rfl
    | emit | change | reject | withOperatorInputs => exact ⟨trivial, trivial⟩

theorem published_step (published : (w.inner.heap r).Published) (inTurn : w.InTurnAt r a)
    (h : w.step P a = some w') : (w'.inner.heap r).Published := by
  rcases inTurn_cases inTurn h with same | ⟨_, reg, new⟩ | ⟨sa, stepped, ordered, _⟩
  · rw [same]
    exact published
  · obtain ⟨seq, tx, replay⟩ := reg.scene_fresh P
    rw [new]
    exact SceneCell.Published.of_sound rfl (Sound.fresh seq tx replay)
  · exact published.step ordered.1 stepped

/-- An existing scene adds to its history and to its channel. -/
theorem grows (exists_ : r < w.inner.nextRef) (published : (w.inner.heap r).Published)
    (inTurn : w.InTurnAt r a) (h : w.step P a = some w') :
    (∃ more, (w'.inner.heap r).history = (w.inner.heap r).history ++ more) ∧
      (w.inner.heap r).scene.tx.sent.length ≤ (w'.inner.heap r).scene.tx.sent.length := by
  rcases inTurn_cases inTurn h with same | ⟨rfl, _⟩ | ⟨sa, stepped, ordered, _⟩
  · rw [same]
    exact ⟨⟨[], (List.append_nil _).symm⟩, Nat.le_refl _⟩
  · exact absurd exists_ (Nat.lt_irrefl _)
  · exact published.grows ordered stepped

/-- Every number of the scene `r` was taken by an emission. -/
def UnbrokenAt (r : SceneRef) (w : World Text) : Prop :=
  r < w.inner.nextRef → (w.inner.heap r).Unbroken

theorem UnbrokenAt.step (unbroken : UnbrokenAt r w) (published : (w.inner.heap r).Published)
    (inTurn : w.InTurnAt r a) (calm : ∀ d, ¬w.Leaves a d r) (h : w.step P a = some w') :
    UnbrokenAt r w' := by
  intro exists_
  by_cases old : r < w.inner.nextRef
  · rcases inTurn_cases inTurn h with same | ⟨rfl, _⟩ | ⟨sa, stepped, ordered, leaves⟩
    · rw [same]
      exact unbroken old
    · exact absurd old (Nat.lt_irrefl _)
    · refine (unbroken old).step published ordered.1 (fun change => ?_) stepped
      obtain ⟨d, leaves⟩ := leaves change
      exact calm d leaves
  · obtain ⟨reg, new⟩ := created_of_step h (Nat.not_lt.mp old) exists_
    obtain ⟨seq, tx, _⟩ := reg.scene_fresh P
    rw [new, SceneCell.Unbroken, SceneCell.history_of_idle rfl, seq, tx,
      numbersAbove_eq_nil (Nat.le_refl 1)]
    exact ⟨Nat.le_refl 1, rfl⟩

end World

/-! ## The handshake -/

/-- The connection subscribed to the scene before it sends anything. -/
structure Opening (r : SceneRef) (c : Nat) (w : World Text) : Prop where
  wf : w.Wf
  published : (w.inner.heap r).Published
  quiet : (w.conns c).Quiet
  within : (w.conns c).link = .opening r →
    (w.conns c).deltas ≤ (w.inner.heap r).scene.tx.sent.length

/-- The connection has left the scene it resumed on: it comes to another with a snapshot. -/
def Connection.Gone (conn : Connection Text) : Prop :=
  match conn.link with
  | .crossing _ | .crossingAt .. | .closed => True
  | .landing _ | .attached _ => latestSnapshot conn.outbox ≠ none
  | .detached | .opening _ | .reading .. => False

theorem Connection.Gone.move {inner : ServerInner Text} {c : Nat} {conn : Connection Text}
    {o : Outcome Text} (gone : conn.Gone) (h : Connection.Move inner c conn o) : o.conn.Gone := by
  have other {q : SceneRef} {f : ServerFrame} (before : conn.link = .attached q)
      (after : o.conn.link = .attached q) (outbox : o.conn.outbox = conn.outbox ++ [f])
      (noSnapshot : snapshotOf f = none) : o.conn.Gone := by
    rw [Gone, before] at gone
    rw [Gone, after, outbox, latestSnapshot_concat noSnapshot]
    simpa using gone
  cases h with
  | still link outbox =>
      rw [Gone, link, outbox]
      exact gone
  | pong before link f outbox => exact other before link outbox rfl
  | deliver before link received outbox => exact other before link outbox rfl
  | @refuse q reply stop before phase link clock outbox =>
      cases stop with
      | true => simp [Gone, link]
      | false => exact other before link outbox rfl
  | close link | deny before link | leave before phase link | crossSeq before link =>
      simp [Gone, link]
  | crossSnapshot before link clock outbox =>
      rw [Gone, link, outbox, snapshotFrame, latestSnapshot_snapshot]
      exact Option.some_ne_none _
  | land before phase link outbox =>
      rw [Gone, before] at gone
      rw [Gone, link, outbox]
      exact gone
  | subscribe before | resume before | readSeq before | snapshot before =>
      rw [Gone, before] at gone
      exact gone.elim

/-- What the connection was sent since it resumed on the scene `r` at `since`, with its
receiver at `start`. -/
structure Connection.Plays (since start : Nat) (r : SceneRef) (conn : Connection Text)
    (cell : SceneCell Text) : Prop where
  link : conn.link = .attached r ∨ conn.link = .closed
  silent : latestSnapshot conn.outbox = none
  played : ∃ split next, cell.Played since start split next (deltasOf conn.outbox) ∧
    (conn.link = .attached r → next = conn.deltas)

namespace Connection.Plays

variable {since start : Nat} {r : SceneRef} {conn conn' : Connection Text}
  {cell cell' : SceneCell Text}

/-- The scene goes on. -/
theorem grow (plays : conn.Plays since start r cell)
    (history : ∃ more, cell'.history = cell.history ++ more)
    (sent : cell.scene.tx.sent.length ≤ cell'.scene.tx.sent.length) :
    conn.Plays since start r cell' := by
  obtain ⟨more, history⟩ := history
  obtain ⟨split, next, played, queue⟩ := plays.played
  exact ⟨plays.link, plays.silent, split, next, played.grow history sent, queue⟩

/-- The connection ends. -/
theorem close (plays : conn.Plays since start r cell) (link : conn'.link = .closed)
    (outbox : conn'.outbox = conn.outbox) : conn'.Plays since start r cell := by
  obtain ⟨split, next, played, _⟩ := plays.played
  refine ⟨.inr link, outbox ▸ plays.silent, split, next, outbox ▸ played, fun linked => ?_⟩
  cases link.symm.trans linked

/-- A frame that carries no state. -/
theorem other (plays : conn.Plays since start r cell) {q : SceneRef} {f : ServerFrame}
    (before : conn.link = .attached q) (link : conn'.link = .attached q ∨ conn'.link = .closed)
    (outbox : conn'.outbox = conn.outbox ++ [f]) (deltas : conn'.deltas = conn.deltas)
    (noDelta : deltaOf f = none) (noSnapshot : snapshotOf f = none) :
    conn'.Plays since start r cell := by
  rcases plays.link with attached | closed
  · obtain rfl : q = r := Link.attached.inj (before.symm.trans attached)
    obtain ⟨split, next, played, queue⟩ := plays.played
    have frames : deltasOf conn'.outbox = deltasOf conn.outbox := by
      rw [outbox, deltasOf_append]
      simp [deltasOf, noDelta]
    refine ⟨link, ?_, split, next, frames ▸ played, fun _ => deltas ▸ queue attached⟩
    rw [outbox, latestSnapshot_concat noSnapshot, plays.silent]
    rfl
  · cases before.symm.trans closed

/-- A step of the handler: the connection stays with the scene, or leaves it. -/
theorem move {inner : ServerInner Text} {c : Nat} {o : Outcome Text}
    (plays : conn.Plays since start r (inner.heap r)) (h : Connection.Move inner c conn o) :
    o.conn.Plays since start r (inner.heap r) ∨
      (conn.current = some r ∧ (∃ target, conn.phase = .advancing target) ∧ o.conn.Gone) := by
  have here {q : SceneRef} (before : conn.link = .attached q) : q = r := by
    rcases plays.link with attached | closed
    · exact Link.attached.inj (before.symm.trans attached)
    · cases before.symm.trans closed
  cases h with
  | still link outbox deltas =>
      refine .inl ⟨link ▸ plays.link, outbox ▸ plays.silent, ?_⟩
      rw [link, outbox, deltas]
      exact plays.played
  | pong before link f outbox deltas =>
      exact .inl (plays.other before (.inl link) outbox deltas rfl rfl)
  | close link outbox => exact .inl (plays.close link outbox)
  | @refuse q reply stop before _ link clock outbox deltas =>
      refine .inl (plays.other before ?_ outbox deltas rfl rfl)
      cases stop with
      | true => exact .inr link
      | false => exact .inl link
  | deliver before link received outbox deltas =>
      obtain rfl := here before
      obtain ⟨split, next, played, queue⟩ := plays.played
      obtain rfl := queue before
      refine .inl ⟨.inl link, ?_, ?_⟩
      · rw [outbox, latestSnapshot_concat rfl, plays.silent]
        rfl
      · rw [outbox, deltas, deltasOf_append]
        exact ⟨split, _, played.deliver received, fun _ => rfl⟩
  | @leave q target before phase link =>
      obtain rfl := here before
      exact .inr ⟨current_of_attached before, ⟨target, phase⟩, by simp [Gone, link]⟩
  | deny before | subscribe before | resume before | readSeq before | snapshot before
  | crossSeq before | crossSnapshot before | land before =>
      rcases plays.link with attached | closed
      · cases before.symm.trans attached
      · cases before.symm.trans closed

end Connection.Plays

/-- The connection was resumed on an existing scene, and is with it or closed. -/
structure Resumed (since start : Nat) (r : SceneRef) (c : Nat) (w : World Text) : Prop where
  wf : w.Wf
  published : (w.inner.heap r).Published
  exists_ : r < w.inner.nextRef
  plays : (w.conns c).Plays since start r (w.inner.heap r)

section Runs

variable {P : Platform Text} {r : SceneRef} {c since start : Nat} {w w' : World Text}
  {a : Action Text}

theorem Opening.init (init : w.Init) : Opening r c w where
  wf := init.wf
  published := SceneCell.Published.of_sound (init.idle r) (init.sound r)
  quiet := by simp [Connection.Quiet, Connection.link, init.awaiting c, init.silent c]
  within := by simp [Connection.link, init.awaiting c]

theorem Opening.step (opening : Opening r c w) (inTurn : w.InTurnAt r a)
    (h : w.step P a = some w') : Opening r c w' := by
  have handled : (w'.conns c).Quiet ∧ ((w'.conns c).link = .opening r →
      (w'.conns c).deltas ≤ (w.inner.heap r).scene.tx.sent.length) := by
    refine World.conn_step (Q := fun conn => conn.Quiet ∧ (conn.link = .opening r →
      conn.deltas ≤ (w.inner.heap r).scene.tx.sent.length)) h
      (fun _ => ⟨opening.quiet, opening.within⟩) ⟨trivial, nofun⟩ fun amb o _ stepped => ?_
    have move := Connection.move_of_step stepped
    refine ⟨opening.quiet.move move, fun linked => ?_⟩
    cases move with
    | still link _ deltas =>
        rw [deltas]
        exact opening.within (link ▸ linked)
    | subscribe _ link _ deltas =>
        obtain rfl : _ = r := Link.opening.inj (link.symm.trans linked)
        exact Nat.le_of_eq deltas
    | @refuse _ _ stop _ _ link => cases stop <;> simp_all
    | _ => simp_all
  refine ⟨opening.wf.step h, World.published_step opening.published inTurn h, handled.1,
    fun linked => ?_⟩
  have exists_ : r < w.inner.nextRef := opening.wf.link_of_step h (by rw [linked]; rfl)
  exact Nat.le_trans (handled.2 linked) (World.grows exists_ opening.published inTurn h).2

/-- The step that answers with the ring. -/
theorem Opening.resume {amb : Ambient} (opening : Opening r c w)
    (replays : (w.conns c).phase = .replaying since) (current : (w.conns c).current = some r)
    (covered : ((w.inner.heap r).scene.replaySince since).covered = true)
    (h : w.step P (.handler c amb) = some w') : Resumed since (w.conns c).deltas r c w' := by
  obtain ⟨o, stepped, conns, effect⟩ := World.step_handler h
  simp only [Connection.step, replays, current, Option.map_some, covered, if_true,
    Option.some.injEq] at stepped
  subst stepped
  have inner : w'.inner = w.inner := (Option.some.inj effect).symm
  have conn := congrFun conns c
  rw [Function.update_self] at conn
  have linked : (w.conns c).link = .opening r := by simp [Connection.link, replays, current]
  have empty : (w.conns c).outbox = [] := opening.quiet.empty_of_opening linked
  have outbox : (w'.conns c).outbox =
      ((w.inner.heap r).scene.replaySince since).records.map fun r => .delta r.frame := by
    rw [conn, empty, List.nil_append]
  have sent : deltasOf (w'.conns c).outbox =
      ((w.inner.heap r).scene.replaySince since).records.map ReplayRecord.frame := by
    rw [outbox, deltasOf, List.filterMap_map]
    exact congrFun List.filterMap_eq_map' _
  have played := SceneCell.Played.replay opening.published (opening.within linked) covered
  refine ⟨opening.wf.step h, inner ▸ opening.published, inner ▸ opening.wf.current current,
    .inl (by rw [conn]; rfl), ?_, ?_⟩
  · rw [outbox]
    exact latestSnapshot_replayed _
  · rw [sent, inner]
    exact ⟨_, _, played, fun _ => by rw [conn]⟩

/-- A resumed connection stays with the scene until it leaves it. -/
theorem Resumed.step (resumed : Resumed since start r c w) (inTurn : w.InTurnAt r a)
    (h : w.step P a = some w') :
    Resumed since start r c w' ∨ (w.Leaves a c r ∧ (w'.conns c).Gone) := by
  have plays := resumed.plays
  have moved : (w'.conns c).Plays since start r (w.inner.heap r) ∨
      (w.Leaves a c r ∧ (w'.conns c).Gone) := by
    refine World.conn_step (Q := fun conn => conn.Plays since start r (w.inner.heap r) ∨
      (w.Leaves a c r ∧ conn.Gone)) h (fun _ => .inl ⟨plays.link, plays.silent, plays.played⟩)
      (.inl (plays.close rfl rfl)) fun amb o taken stepped => ?_
    refine (plays.move (Connection.move_of_step stepped)).imp_right ?_
    rintro ⟨current, ⟨target, phase⟩, gone⟩
    exact ⟨⟨amb, target, taken, phase, current⟩, gone⟩
  refine moved.imp_left fun plays => ?_
  obtain ⟨history, sent⟩ := World.grows resumed.exists_ resumed.published inTurn h
  exact ⟨resumed.wf.step h, World.published_step resumed.published inTurn h,
    Nat.lt_of_lt_of_le resumed.exists_ (World.step_refs h).1, plays.grow history sent⟩

/-- A connection that has left stays gone. -/
theorem gone_step (gone : (w.conns c).Gone) (h : w.step P a = some w') : (w'.conns c).Gone := by
  refine World.conn_step (Q := Connection.Gone) h (fun _ => gone) trivial fun amb o _ stepped => ?_
  exact gone.move (Connection.move_of_step stepped)

end Runs

/-- In every run in which one emitter at a time and no scene change moves the scene, and
in which the handler answers a resume at `since` from the ring: the deltas that are above
every number seen before have the numbers `since + 1`, `since + 2`, and so on, and once the
emitter is idle and the queue is drained they are all deltas emitted above `since`. -/
theorem resume_loses_nothing {P : Platform Text} {start mid stop : World Text} {r : SceneRef}
    {c since : Nat} {before after : List (Action Text)} {amb : Ambient} (init : start.Init)
    (unbroken : r < start.inner.nextRef → Unbroken (start.inner.heap r).scene [])
    (serial : Always (World.step P) (World.SerialAt r) start (before ++ .handler c amb :: after))
    (calm : Along (World.step P) (fun w a => ∀ d, ¬w.Leaves a d r) start
      (before ++ .handler c amb :: after))
    (reach : run (World.step P) start before = some mid)
    (replays : (mid.conns c).phase = .replaying since) (current : (mid.conns c).current = some r)
    (covered : ((mid.inner.heap r).scene.replaySince since).covered = true) (positive : 1 ≤ since)
    (finish : run (World.step P) mid (.handler c amb :: after) = some stop) :
    let kept := fresh Delta.seq since (deltasOf (stop.conns c).outbox)
    kept.map (·.seq) = numbersAbove since (since + kept.length) ∧
      ((stop.conns c).link = .attached r → (stop.inner.heap r).calls = [] →
        (stop.inner.heap r).scene.tx.recv (stop.conns c).deltas = .empty →
          kept = ((stop.inner.heap r).scene.tx.sent.filter fun p => since < p.seq).map
              DeltaPayload.frame ∧
            kept.map (·.seq) = numbersAbove since (stop.inner.heap r).scene.seq) := by
  obtain ⟨toMid, fromMid⟩ := (serial.along.and calm).append reach
  have opened : Opening r c mid ∧ World.UnbrokenAt r mid := by
    refine toMid.invariant (I := fun w => Opening r c w ∧ World.UnbrokenAt r w)
      (fun w a w' held both h => ?_) ⟨Opening.init init, fun exists_ => ?_⟩ reach
    · have inTurn := World.SerialAt.inTurnAt both.1.1 a
      exact ⟨held.1.step inTurn h, held.2.step held.1.published inTurn both.2 h⟩
    · refine ⟨(init.sound r).started, ?_⟩
      rw [SceneCell.history_of_idle (init.idle r)]
      simpa [Unbroken, allocated] using unbroken exists_
  obtain ⟨resumedAt, first, rest⟩ := run_cons_eq_some.mp finish
  have inTurn := World.SerialAt.inTurnAt fromMid.1.1.1 (.handler c amb)
  have finally_ : Resumed since (mid.conns c).deltas r c stop ∧ World.UnbrokenAt r stop := by
    refine (fromMid.2 _ first).invariant
      (I := fun w => Resumed since (mid.conns c).deltas r c w ∧ World.UnbrokenAt r w)
      (fun w a w' held both h => ?_) ⟨opened.1.resume replays current covered first,
        opened.2.step opened.1.published inTurn fromMid.1.2 first⟩ rest
    have inTurn := World.SerialAt.inTurnAt both.1.1 a
    refine ⟨(held.1.step inTurn h).resolve_right fun gone => both.2 c gone.1, ?_⟩
    exact held.2.step held.1.published inTurn both.2 h
  obtain ⟨resumed, unbroken⟩ := finally_
  obtain ⟨split, next, played, queue⟩ := resumed.plays.played
  have whole := unbroken resumed.exists_
  refine ⟨played.numbers resumed.published whole positive, fun attached idle drained => ?_⟩
  have frames := played.drained resumed.published idle
    (queue attached ▸ (Broadcast.recv_eq_empty.mp drained).2)
  refine ⟨frames, ?_⟩
  rw [frames, List.map_map, ← filter_numbersAbove positive, ← whole.2,
    SceneCell.history_of_idle idle, List.filter_map]
  rfl

/-- A resume at 1, with the second emission both in the ring and in the queue. -/
private def beforeReplay : List (Action Value) :=
  emission 0 true ++ .receive 0 (.text (.object [("since_sequence", .number (.posInt 1)),
    ("token", .string "t"), ("type", .string "subscribe"), ("v", .number (.posInt 1))])) ::
    List.replicate 5 (operatorStep 0) ++ emission 0 false ++ List.replicate 2 (operatorStep 0)

private def afterReplay : List (Action Value) := List.replicate 3 (operatorStep 0)

theorem resume_loses_nothing_overlap :
    ∃ stop, run (World.step valuePlatform) twoScenes
        (beforeReplay ++ operatorStep 0 :: afterReplay) = some stop ∧
      (deltasOf (stop.conns 0).outbox).map (·.seq) = [2, 3, 3] ∧
      (fresh Delta.seq 1 (deltasOf (stop.conns 0).outbox)).map (·.seq) =
        numbersAbove 1 (stop.inner.heap 0).scene.seq := by
  have replays : (run (World.step valuePlatform) twoScenes beforeReplay).any (fun mid =>
      (mid.conns 0).phase = .replaying 1 ∧ (mid.conns 0).current = some 0 ∧
        ((mid.inner.heap 0).scene.replaySince 1).covered = true) = true := by
    decide
  have ends : (run (World.step valuePlatform) twoScenes
      (beforeReplay ++ operatorStep 0 :: afterReplay)).any (fun stop =>
        (deltasOf (stop.conns 0).outbox).map (·.seq) = [2, 3, 3] ∧
          (stop.conns 0).link = .attached 0 ∧ (stop.inner.heap 0).calls = [] ∧
          (stop.inner.heap 0).scene.tx.recv (stop.conns 0).deltas = .empty) = true := by
    decide
  obtain ⟨mid, reach, phase, current, covered⟩ := exists_run_of_any replays
  obtain ⟨stop, whole, sent, attached, idle, drained⟩ := exists_run_of_any ends
  obtain ⟨mid', reach', finish⟩ := run_append_eq_some.mp whole
  obtain rfl : mid = mid' := Option.some.inj (reach.symm.trans reach')
  have serial : Always (World.step valuePlatform) (World.SerialAt 0) twoScenes
      (beforeReplay ++ operatorStep 0 :: afterReplay) := by
    decide
  have kept : Along (World.step valuePlatform) (fun w a => w.leaving a = false) twoScenes
      (beforeReplay ++ operatorStep 0 :: afterReplay) := by
    decide
  have calm := kept.mono (Q := fun w a => ∀ d, ¬w.Leaves a d 0) fun w a stays d leaves => by
    rw [leaves.leaving] at stays
    cases stays
  have delivered := resume_loses_nothing twoScenes_init (fun _ => rfl) serial calm reach phase
    current covered (Nat.le_refl 1) finish
  exact ⟨stop, whole, sent, (delivered.2 attached idle drained).2⟩

end Lumencast.Server
