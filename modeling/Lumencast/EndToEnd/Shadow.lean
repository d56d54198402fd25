import Lumencast.Conformance.Player
import Lumencast.Server.NoLoss

/-!
# The player's shadow and the server's store

The player rebuilds the state from the texts it hears, without the typed codec. Over
the frames of a connection of this server the shadow is the state of the latest
snapshot, overwritten by the deltas sent after it, and a drained connection leaves
the shadow equal to the store of its scene.
-/

namespace Lumencast.EndToEnd

open Foundation Protocol Server Conformance

variable {Text : Type}

/-- The shadow after one more text. -/
def hear (P : Platform Text) (shadow : State) (t : Text) : State :=
  match P.fromText t with
  | .ok v => updateShadowFromFrame v shadow
  | .error _ => shadow

/-- The shadow after one more frame. -/
def shadowAfter (shadow : State) : ServerFrame → State
  | .snapshot s => s.state
  | .delta d => overwrite shadow (deltaBatch d)
  | .sceneChanged _ | .error _ | .pong _ => shadow

theorem patchWrite_toValue (p : Patch) : patchWrite p.toValue = some p.write := by
  obtain ⟨content, written, read⟩ := exists_objectOf ([("path", p.path.toValue),
    ("value", p.value)] ++ optionalField "transition" TransitionSpec.toValue p.transition)
  have path : member p.toValue "path" = some p.path.toValue := by
    rw [Patch.toValue, written, member, Value.child]
    simp [read]
  have value : member p.toValue "value" = some p.value := by
    rw [Patch.toValue, written, member, Value.child]
    simp [read]
  rw [patchWrite, path, value]
  rfl

/-- A frame is heard as it was meant. -/
theorem hear_encodeServer {P : Platform Text} {f : ServerFrame} {t : Text}
    (encoded : encodeServer P.toTextLayer f = .ok t) (back : P.ReadsBack f.document)
    (shadow : State) : hear P shadow t = shadowAfter shadow f := by
  obtain rfl : P.toText f.document = t := Except.ok.inj ((f.encodeServer_eq _).symm.trans encoded)
  obtain ⟨content, written, _, read⟩ := exists_withVersion f.fields
  have parsed : P.fromText (P.toText f.document) = .ok (.object content) := back.trans (by
    rw [ServerFrame.document, written])
  rw [hear, parsed]
  dsimp only
  have field : ∀ k, k ≠ "v" → member (.object content) k = f.fields.reverse.lookup k := read
  unfold updateShadowFromFrame
  rw [field "type" (by decide)]
  cases f with
  | snapshot s =>
      have kind : (ServerFrame.snapshot s).fields.reverse.lookup "type" =
          some (.string "snapshot") := by
        simp [ServerFrame.fields]
      have state : (ServerFrame.snapshot s).fields.reverse.lookup "state" =
          some (State.toValue s.state) := by
        simp [ServerFrame.fields]
      rw [kind, field "state" (by decide), state]
      exact overwrite_toList s.state
  | delta d =>
      have kind : (ServerFrame.delta d).fields.reverse.lookup "type" = some (.string "delta") := by
        simp [ServerFrame.fields]
      have patches : (ServerFrame.delta d).fields.reverse.lookup "patches" =
          some (.array (d.patches.map Patch.toValue)) := by
        simp [ServerFrame.fields]
      have written : (d.patches.map Patch.toValue).filterMap patchWrite = writes d.patches := by
        rw [List.filterMap_map, writes, ← List.filterMap_eq_map]
        exact List.filterMap_congr fun p _ => patchWrite_toValue p
      rw [kind, field "patches" (by decide), patches]
      exact congrArg (overwrite shadow) written
  | sceneChanged c => simp [ServerFrame.fields, Value.asStr, shadowAfter]
  | error e => simp [ServerFrame.fields, Value.asStr, shadowAfter]
  | pong p => simp [ServerFrame.fields, Value.asStr, shadowAfter]

theorem foldl_hear {P : Platform Text} {frames : List ServerFrame} {texts : List Text}
    (encoded : List.Forall₂ (fun f t => encodeServer P.toTextLayer f = .ok t) frames texts)
    (back : ∀ f ∈ frames, P.ReadsBack f.document) (shadow : State) :
    texts.foldl (hear P) shadow = frames.foldl shadowAfter shadow := by
  induction encoded generalizing shadow with
  | nil => rfl
  | cons first _ ih =>
      obtain ⟨here, later⟩ := List.forall_mem_cons.mp back
      rw [List.foldl_cons, List.foldl_cons, hear_encodeServer first here, ih later]

/-- Without a snapshot the deltas accumulate. -/
theorem foldl_shadowAfter {frames : List ServerFrame}
    (none_sent : ∀ f ∈ frames, snapshotOf f = none) (shadow : State) :
    frames.foldl shadowAfter shadow =
      overwrite shadow (writesOf ((deltasOf frames).map deltaBatch)) := by
  induction frames generalizing shadow with
  | nil => rfl
  | cons f frames ih =>
      rw [List.foldl_cons, ih fun g hg => none_sent g (List.mem_cons_of_mem f hg)]
      have first := none_sent f List.mem_cons_self
      cases f with
      | snapshot s => cases first
      | delta d => exact (overwrite_append shadow _ _).symm
      | sceneChanged | error | pong => rfl

theorem snapshotOf_of_latestSnapshot {frames : List ServerFrame}
    (none_latest : latestSnapshot frames = none) : ∀ f ∈ frames, snapshotOf f = none := by
  induction frames with
  | nil => nofun
  | cons f rest ih =>
      rw [latestSnapshot, Option.or_eq_none_iff, Option.map_eq_none_iff] at none_latest
      exact List.forall_mem_cons.mpr ⟨none_latest.2, ih none_latest.1⟩

theorem latestSnapshot_split {frames later : List ServerFrame} {S : Snapshot}
    (sent : latestSnapshot frames = some (S, later)) :
    (∃ front, frames = front ++ .snapshot S :: later) ∧ ∀ f ∈ later, snapshotOf f = none := by
  induction frames with
  | nil => cases sent
  | cons f rest ih =>
      rw [latestSnapshot] at sent
      cases latest : latestSnapshot rest with
      | some found =>
          rw [latest, Option.some_or, ← latest] at sent
          obtain ⟨⟨front, rfl⟩, none_sent⟩ := ih sent
          exact ⟨⟨f :: front, rfl⟩, none_sent⟩
      | none =>
          rw [latest, Option.none_or, Option.map_eq_some_iff] at sent
          obtain ⟨S', first, same⟩ := sent
          obtain ⟨rfl, rfl⟩ := Prod.mk.inj same
          refine ⟨⟨[], ?_⟩, snapshotOf_of_latestSnapshot latest⟩
          cases f <;> cases first
          rfl

/-- The shadow of what was sent is the latest snapshot, overwritten by the later deltas. -/
theorem foldl_shadowAfter_latest {frames later : List ServerFrame} {S : Snapshot}
    (sent : latestSnapshot frames = some (S, later)) (shadow : State) :
    frames.foldl shadowAfter shadow =
      overwrite S.state (writesOf ((deltasOf later).map deltaBatch)) := by
  obtain ⟨⟨front, rfl⟩, none_sent⟩ := latestSnapshot_split sent
  rw [List.foldl_append, List.foldl_cons]
  exact foldl_shadowAfter none_sent S.state

/-- In every run in which the connection subscribes to the scene in time and is opened by a
snapshot, once the emitter is idle and the queue is drained, a player that has heard all the
texts of the connection, and reads them back, has the scene's store as its shadow, whatever
the shadow was before. -/
theorem shadow_reaches_store {P : Platform Text} {start stop : World Text}
    {r : SceneRef} {c : Nat} {schedule : List (Action Text)} (init : start.Init)
    (serial : Always (World.step P) (World.SerialAt r) start schedule)
    (lands : Along (World.step P) (World.LandsInTime c r) start schedule)
    (reach : run (World.step P) start schedule = some stop)
    (attached : (stop.conns c).link = .attached r)
    (opened : ∃ S, ServerFrame.snapshot S ∈ (stop.conns c).outbox)
    (idle : (stop.inner.heap r).calls = [])
    (drained : (stop.inner.heap r).scene.tx.recv (stop.conns c).deltas = .empty)
    {texts : List Text} (heard : List.Forall₂
      (fun f t => encodeServer P.toTextLayer f = .ok t) (stop.conns c).outbox texts)
    (back : ∀ f ∈ (stop.conns c).outbox, P.ReadsBack f.document) (shadow : State) :
    texts.foldl (hear P) shadow = (stop.inner.heap r).scene.store := by
  have calm : Along (World.step P) (fun w a => False → ∀ d, ¬w.Leaves a d r) start schedule :=
    Along.mono (fun _ _ _ => False.elim) lands
  have watches := Watches.run init serial calm lands reach
  obtain ⟨S, opening⟩ := opened
  obtain ⟨⟨S, later⟩, sent⟩ : ∃ latest, latestSnapshot (stop.conns c).outbox = some latest := by
    cases latest : latestSnapshot (stop.conns c).outbox with
    | none => cases snapshotOf_of_latestSnapshot latest _ opening
    | some found => exact ⟨found, rfl⟩
  obtain ⟨position, synced⟩ := watches.synced attached sent
  rw [SceneCell.inFlight, idle] at synced
  rw [foldl_hear heard back, foldl_shadowAfter_latest sent]
  exact synced.rebuilds_of_drained (Broadcast.recv_eq_empty.mp drained).2

/-- Every frame can be written. -/
theorem exists_texts (T : TextLayer Text) (frames : List ServerFrame) :
    ∃ texts, List.Forall₂ (fun f t => encodeServer T f = .ok t) frames texts := by
  induction frames with
  | nil => exact ⟨[], .nil⟩
  | cons f frames ih =>
      obtain ⟨texts, rest⟩ := ih
      exact ⟨_ :: texts, .cons (f.encodeServer_eq T) rest⟩

/-- A swap, and an emission on the new scene after the subscription to it. -/
private def swapThenEmission : List (Action Value) :=
  connect 0 ++ activation "stage" ++ List.replicate 7 (operatorStep 0) ++ emission 1 true ++
    List.replicate 3 (operatorStep 0)

theorem shadow_reaches_store_swapThenEmission :
    ∃ stop, run (World.step valuePlatform) twoScenes swapThenEmission = some stop ∧
      (stop.inner.heap 1).scene.store[("lamp" : String)]? = some (.bool true) ∧
      ∃ texts, List.Forall₂ (fun f t => encodeServer valuePlatform.toTextLayer f = .ok t)
          (stop.conns 0).outbox texts ∧
        texts.foldl (hear valuePlatform) ∅ = (stop.inner.heap 1).scene.store := by
  have serial : Always (World.step valuePlatform) (World.SerialAt 1) twoScenes
      swapThenEmission := by
    decide
  have lands : Along (World.step valuePlatform) (World.LandsInTime 0 1) twoScenes
      swapThenEmission := by
    decide
  have ends : (run (World.step valuePlatform) twoScenes swapThenEmission).any (fun stop =>
      (stop.conns 0).link = .attached 1 ∧ (stop.inner.heap 1).calls = [] ∧
        (stop.inner.heap 1).scene.tx.recv (stop.conns 0).deltas = .empty ∧
        (stop.inner.heap 1).scene.store[("lamp" : String)]? = some (.bool true) ∧
        (latestSnapshot (stop.conns 0).outbox).isSome) = true := by
    decide
  obtain ⟨stop, reach, attached, idle, drained, lamp, some_sent⟩ := exists_run_of_any ends
  obtain ⟨⟨S, later⟩, sent⟩ := Option.isSome_iff_exists.mp some_sent
  obtain ⟨⟨front, split⟩, _⟩ := latestSnapshot_split sent
  have opened : ServerFrame.snapshot S ∈ (stop.conns 0).outbox :=
    split ▸ List.mem_append_right _ List.mem_cons_self
  obtain ⟨texts, heard⟩ := exists_texts valuePlatform.toTextLayer (stop.conns 0).outbox
  exact ⟨stop, reach, lamp, texts, heard, shadow_reaches_store twoScenes_init serial lands reach
    attached ⟨S, opened⟩ idle drained heard (fun _ _ => rfl) ∅⟩

end Lumencast.EndToEnd
