import Lumencast.Server.BundleScenes
import Lumencast.Server.NoLoss

/-!
# Clean frames

The frames that connections are sent reach their clients as they were sent, in every run of
the server. Patches are parsed before they are published, and what is published is all that
rings and queues hold; what a scene is seeded with, which is not checked, is the only source
of an unclean frame. A bundle seeds its scene with its defaults, and a program may seed the
scene again at any time.
-/

namespace Lumencast.Server

open Foundation Protocol

variable {Text : Type}

/-- Patches that a delta may carry. -/
def CleanPatches (patches : List Patch) : Prop := patches ≠ [] ∧ ∀ p ∈ patches, p.Legal

/-- Everything that clients can be sent of a scene is clean. -/
structure SceneCell.Clean (cell : SceneCell Text) : Prop where
  store : ∀ e ∈ cell.scene.store.toList, LegalEntry e
  ring : ∀ record ∈ cell.scene.replay.records, CleanPatches record.patches
  queue : ∀ payload ∈ cell.scene.tx.sent, CleanPatches payload.patches
  calls : ∀ call ∈ cell.calls, CleanPatches call.2.patches

/-- A frame with legal leaves; a delta has one at least. -/
def CleanFrame : ServerFrame → Prop
  | .snapshot f => ∀ e ∈ f.state.toList, LegalEntry e
  | .delta f => CleanPatches f.patches
  | .sceneChanged f => f.transition = none
  | .error _ | .pong _ => True

theorem CleanFrame.legal {f : ServerFrame} (clean : CleanFrame f) : f.Legal := by
  cases f with
  | snapshot f => exact fun e member => (clean e member).2
  | delta f => exact clean.2
  | sceneChanged f =>
      have absent : f.transition = none := clean
      simp [ServerFrame.Legal, absent]
  | error | pong => trivial

/-- Parsed pairs are clean. -/
theorem cleanPatches_of_parsePairs {pairs : List (String × Value)} {patches : List Patch}
    (parsed : parsePairs pairs = .ok patches) (nonempty : patches ≠ []) :
    CleanPatches patches := by
  refine ⟨nonempty, fun p member => ?_⟩
  obtain ⟨pair, _, parsed⟩ := exists_of_mem_mapM parsed p member
  obtain ⟨valid, leaf, rfl⟩ := parsePair_eq_ok.mp parsed
  exact ⟨valid, by simp [Patch.isValueLegal, leaf], by simp⟩

/-- A scene is clean when it is registered if the defaults are legal. -/
theorem SceneCell.clean_registered (P : Platform Text) {reg : Registration}
    (legal : ∀ e ∈ reg.defaults, LegalEntry e) :
    ({ scene := reg.scene P } : SceneCell Text).Clean := by
  obtain ⟨_, tx, replay⟩ := reg.scene_fresh P
  refine ⟨?_, by simp [replay, ReplayBuffer.new], by simp [tx], by simp⟩
  rw [reg.scene_store P]
  exact legal_overwrite (by simp) legal

/-- The locked steps of an emission of clean patches. -/
theorem SceneCell.Clean.progress {cell : SceneCell Text} (clean : cell.Clean) {caller : Caller}
    {e : Emission} (emits : CleanPatches e.patches) :
    (cell.advance caller (e.step cell.scene)).Clean := by
  have waiting : ∀ call ∈ cell.others caller, CleanPatches call.2.patches := fun call member =>
    clean.calls call (List.mem_filter.mp member).1
  obtain ⟨patches, cause, stage⟩ := e
  have goesOn {stage' : EmitStage} : ∀ call ∈ cell.others caller ++
      [(caller, ({ patches, cause, stage := stage' } : Emission))],
      CleanPatches call.2.patches := by
    intro call member
    rcases List.mem_append.mp member with other | self
    · exact waiting call other
    · rw [List.mem_singleton.mp self]
      exact emits
  cases stage with
  | write =>
      refine ⟨legal_overwrite clean.store ?_, clean.ring, clean.queue, goesOn⟩
      intro w written
      obtain ⟨p, member, rfl⟩ := List.mem_map.mp written
      obtain ⟨valid, leaf, _⟩ := emits.2 p member
      exact ⟨valid, by simpa [Patch.isValueLegal, Patch.write] using leaf⟩
  | number => exact ⟨clean.store, clean.ring, clean.queue, goesOn⟩
  | push seq =>
      refine ⟨clean.store, ?_, clean.queue, goesOn⟩
      intro record member
      rcases List.mem_append.mp member with old | new
      · split at old
        · exact clean.ring record (List.mem_of_mem_tail old)
        · exact clean.ring record old
      · rw [List.mem_singleton.mp new]
        exact emits
  | send seq =>
      refine ⟨clean.store, clean.ring, ?_, ?_⟩
      · intro payload member
        rcases List.mem_append.mp member with old | new
        · exact clean.queue payload old
        · rw [List.mem_singleton.mp new]
          exact emits
      · intro call member
        exact waiting call (by simpa [advance, Emission.step] using member)

/-- Every locked step keeps a scene clean. -/
theorem SceneCell.Clean.step {cell cell' : SceneCell Text} (clean : cell.Clean) {a : SceneAction}
    (h : cell.step a = some cell') : cell'.Clean := by
  cases a with
  | emit caller pairs cause =>
      simp only [SceneCell.step] at h
      split at h
      · cases h
      · split at h
        · cases h
          exact clean
        · cases h
          exact clean
        · next patches nonempty parsed =>
          cases h
          refine ⟨clean.store, clean.ring, clean.queue, ?_⟩
          intro call member
          rcases List.mem_append.mp member with old | new
          · exact clean.calls call old
          · rw [List.mem_singleton.mp new]
            refine cleanPatches_of_parsePairs parsed ?_
            rintro rfl
            exact nonempty rfl
  | progress caller =>
      obtain ⟨e, found, rfl⟩ := step_progress h
      obtain ⟨before, after, calls, _⟩ := List.lookup_eq_some_iff.mp found
      have member : (caller, e) ∈ cell.calls := by simp [calls]
      exact clean.progress (clean.calls _ member)
  | change | reject | withOperatorInputs =>
      cases h
      exact ⟨clean.store, clean.ring, clean.queue, clean.calls⟩

theorem SceneCell.Clean.seed {cell : SceneCell Text} (clean : cell.Clean)
    {defaults : List (String × Value)} (legal : ∀ e ∈ defaults, LegalEntry e) :
    ({ cell with scene := cell.scene.seed defaults } : SceneCell Text).Clean :=
  ⟨legal_overwrite clean.store legal, clean.ring, clean.queue, clean.calls⟩

/-- A handler step sends clean frames only. -/
theorem Connection.sends_clean {T : TextLayer Text} {inner : ServerInner Text} {c : Nat}
    {conn : Connection Text} {amb : Ambient} {o : Outcome Text}
    (cells : ∀ r, (inner.heap r).Clean) (h : conn.step T inner c amb = some o) :
    ∃ frames, o.conn.outbox = conn.outbox ++ frames ∧ ∀ f ∈ frames, CleanFrame f := by
  have one {f : ServerFrame} (clean : CleanFrame f) : ∀ f' ∈ [f], CleanFrame f' := by
    intro f' member
    rw [List.mem_singleton.mp member]
    exact clean
  cases move_of_step h with
  | still _ outbox | close _ outbox | subscribe _ _ outbox | readSeq _ _ outbox
  | crossSeq _ _ outbox | land _ _ _ outbox => exact ⟨[], by simp [outbox], by simp⟩
  | pong _ _ f outbox => exact ⟨_, outbox, one trivial⟩
  | deny _ _ f outbox => exact ⟨_, outbox, one trivial⟩
  | refuse _ _ _ clock outbox => exact ⟨_, outbox, one trivial⟩
  | @resume r since _ _ _ covered outbox =>
      refine ⟨_, outbox, ?_⟩
      intro f member
      obtain ⟨record, slice, rfl⟩ := List.mem_map.mp member
      rw [Scene.replaySince, ReplayBuffer.since_records_of_covered covered] at slice
      exact (cells r).ring record (List.mem_filter.mp slice).1
  | @snapshot r _ _ _ clock outbox => exact ⟨_, outbox, one (cells r).store⟩
  | @deliver r p next _ _ received outbox =>
      obtain ⟨_, found, _⟩ := Broadcast.recv_eq_message.mp received
      exact ⟨_, outbox, one ((cells r).queue p (List.mem_of_getElem? found))⟩
  | leave _ _ _ clock outbox => exact ⟨_, outbox, one rfl⟩
  | @crossSnapshot r _ _ _ clock outbox => exact ⟨_, outbox, one (cells r).store⟩

/-! ## Clean worlds -/

/-- The call registers no scene with illegal defaults. -/
def ServerCall.Clean : ServerCall → Prop
  | register reg | insert reg => ∀ e ∈ reg.defaults, LegalEntry e
  | _ => True

theorem ServerCall.Clean.step (P : Platform Text) {inner : ServerInner Text} {call : ServerCall}
    (clean : call.Clean) (cells : ∀ r, (inner.heap r).Clean) :
    (∀ r, ((call.step P inner).1.heap r).Clean) ∧
      ∀ call' ∈ (call.step P inner).2.rest, call'.Clean := by
  cases call with
  | register reg =>
      rw [ServerCall.step]
      split
      · exact ⟨cells, by simp [Progress.rest]⟩
      · refine ⟨cells, ?_⟩
        rintro call' rest
        cases rest
        exact clean
  | insert reg =>
      refine ⟨fun r => ?_, ?_⟩
      · by_cases new : r = inner.nextRef
        · subst new
          have stored : ((ServerCall.insert reg).step P inner).1.heap inner.nextRef =
              { scene := reg.scene P } := Function.update_self ..
          rw [stored]
          exact SceneCell.clean_registered P clean
        · have kept : ((ServerCall.insert reg).step P inner).1.heap r = inner.heap r :=
            Function.update_of_ne new ..
          rw [kept]
          exact cells r
      · rintro call' rest
        cases rest
        trivial
  | setActiveScene id =>
      rw [ServerCall.step]
      split
      · refine ⟨cells, ?_⟩
        rintro call' rest
        cases rest
        trivial
      · exact ⟨cells, by simp [Progress.rest]⟩
  | activate | sendSwap | clearActive => exact ⟨cells, by simp [ServerCall.step, Progress.rest]⟩
  | writeActive | clearScenes =>
      refine ⟨cells, ?_⟩
      rintro call' rest
      cases rest
      trivial

namespace World

/-- Nothing that a client was sent or can be sent is unclean. -/
structure Clean (w : World Text) : Prop where
  cells : ∀ r, (w.inner.heap r).Clean
  tasks : ∀ n, ∀ call ∈ w.tasks n, call.Clean
  sent : ∀ c, ∀ f ∈ (w.conns c).outbox, CleanFrame f

end World

/-- The action asks for no bundle with illegal defaults. -/
def Action.Legal : Action Text → Prop
  | request _ (.registerBundle b) => ∀ e ∈ b.defaults.toList, LegalEntry e
  | _ => True

namespace World

variable {P : Platform Text} {w w' : World Text} {a : Action Text}

theorem clean_onScene {inner inner' : ServerInner Text} {r : SceneRef} {sa : SceneAction}
    (cells : ∀ q, (inner.heap q).Clean) (h : inner.onScene r sa = some inner') :
    ∀ q, (inner'.heap q).Clean := by
  intro q
  rcases onScene_heap h q with same | ⟨rfl, stepped⟩
  · rw [same]
    exact cells q
  · exact (cells q).step stepped

theorem Clean.step (clean : w.Clean) (legal : a.Legal) (h : w.step P a = some w') : w'.Clean := by
  have sent : ∀ c, ∀ f ∈ (w'.conns c).outbox, CleanFrame f := by
    intro c
    refine conn_step (Q := fun conn => ∀ f ∈ conn.outbox, CleanFrame f) h (fun _ => clean.sent c)
      (clean.sent c) fun amb o _ stepped => ?_
    obtain ⟨frames, outbox, new⟩ := Connection.sends_clean clean.cells stepped
    intro f member
    rw [outbox] at member
    exact (List.mem_append.mp member).elim (clean.sent c f) (new f)
  suffices kept : (∀ r, (w'.inner.heap r).Clean) ∧ ∀ n, ∀ call ∈ w'.tasks n, call.Clean from
    ⟨kept.1, kept.2, sent⟩
  cases a with
  | scene r sa =>
      simp only [World.step] at h
      split at h
      · obtain ⟨inner, stepped, rfl⟩ := Option.map_eq_some_iff.mp h
        exact ⟨clean_onScene clean.cells stepped, clean.tasks⟩
      · cases h
  | request n q =>
      simp only [World.step] at h
      split at h <;> cases h
      refine ⟨clean.cells, fun m call begun => ?_⟩
      dsimp only at begun
      by_cases same : m = n
      · subst same
        rw [Function.update_self] at begun
        cases begun
        cases q with
        | newScene => simp [ServerRequest.start, ServerCall.Clean, Registration.defaults]
        | registerBundle b => exact legal
        | setActiveScene | clearScenes => trivial
      · rw [Function.update_of_ne same] at begun
        exact clean.tasks m call begun
  | serve n =>
      obtain ⟨call, task, rfl⟩ := Option.map_eq_some_iff.mp h
      obtain ⟨cells, rest⟩ := (clean.tasks n call task).step P clean.cells
      refine ⟨cells, fun m call' begun => ?_⟩
      dsimp only at begun
      by_cases same : m = n
      · subst same
        rw [Function.update_self] at begun
        exact rest call' begun
      · rw [Function.update_of_ne same] at begun
        exact clean.tasks m call' begun
  | receive c m =>
      cases h
      exact ⟨clean.cells, clean.tasks⟩
  | handler c amb =>
      simp only [World.step] at h
      split at h
      · cases h
      · obtain ⟨o, stepped, performed⟩ := Option.bind_eq_some_iff.mp h
        obtain ⟨inner, effect, rfl⟩ := Option.map_eq_some_iff.mp performed
        refine ⟨?_, clean.tasks⟩
        cases asked : o.effect with
        | none =>
            rw [asked] at effect
            cases effect
            exact clean.cells
        | some request =>
            rw [asked] at effect
            exact clean_onScene clean.cells effect
  | hangup c =>
      simp only [World.step] at h
      split at h <;> cases h
      exact ⟨clean.cells, clean.tasks⟩

theorem Clean.run {start stop : World Text} {schedule : List (Action Text)} (clean : start.Clean)
    (legal : ∀ a ∈ schedule, a.Legal)
    (reach : Foundation.run (World.step P) start schedule = some stop) : stop.Clean :=
  (Along.of_forall_mem fun a member _ => legal a member).invariant
    (fun _ _ _ clean legal h => clean.step legal h) clean reach

end World

/-! ## Seeding at any time -/

/-- An action, or a call of `seed` on a scene that the program holds a handle to. -/
inductive SeededAction (Text : Type) where
  | act (a : Action Text)
  | seed (r : SceneRef) (defaults : List (String × Value))

/-- No scene is given illegal defaults. -/
def SeededAction.Legal : SeededAction Text → Prop
  | act a => a.Legal
  | seed _ defaults => ∀ e ∈ defaults, LegalEntry e

namespace World

variable {P : Platform Text} {w w' : World Text} {a : SeededAction Text}

def seededStep (P : Platform Text) (w : World Text) : SeededAction Text → Option (World Text)
  | .act a => w.step P a
  | .seed r defaults =>
      if r < w.inner.nextRef then
        some { w with inner := w.inner.modifyScene r fun s => s.seed defaults }
      else none

theorem Clean.seededStep (clean : w.Clean) (legal : a.Legal) (h : w.seededStep P a = some w') :
    w'.Clean := by
  cases a with
  | act a => exact clean.step legal h
  | seed r defaults =>
      rw [World.seededStep, Option.ite_none_right_eq_some, Option.some.injEq] at h
      obtain ⟨_, rfl⟩ := h
      refine ⟨fun q => ?_, clean.tasks, clean.sent⟩
      by_cases same : q = r
      · subst same
        have seeded : (w.inner.modifyScene q fun s => s.seed defaults).heap q =
            { w.inner.heap q with scene := (w.inner.heap q).scene.seed defaults } :=
          Function.update_self ..
        rw [seeded]
        exact (clean.cells q).seed legal
      · have kept : (w.inner.modifyScene r fun s => s.seed defaults).heap q = w.inner.heap q :=
          Function.update_of_ne same ..
        rw [kept]
        exact clean.cells q

end World

/-- In every run that registers bundles and seeds scenes with legal defaults only, no delta is
empty, and a client decodes each frame of every connection as it was sent if it reads its
document back. -/
theorem wire_clean {P : Platform Text} {start stop : World Text}
    {schedule : List (SeededAction Text)} (clean : start.Clean)
    (legal : ∀ a ∈ schedule, a.Legal)
    (reach : run (World.seededStep P) start schedule = some stop) (c : Nat) :
    ∀ f ∈ (stop.conns c).outbox, CleanFrame f ∧ (P.ReadsBack f.document →
      encodeServer P.toTextLayer f >>= decodeServer P.toTextLayer = .ok f) := by
  intro f member
  have ends : stop.Clean := (Along.of_forall_mem fun a member _ => legal a member).invariant
    (fun _ _ _ clean legal h => clean.seededStep legal h) clean reach
  have sound := ends.sent c f member
  exact ⟨sound, ServerFrame.decode_encode sound.legal⟩

theorem twoScenes_clean : twoScenes.Clean where
  cells r := ⟨by simp [twoScenes, Scene.new], by simp [twoScenes, Scene.new, ReplayBuffer.new],
    by simp [twoScenes, Scene.new], by simp [twoScenes]⟩
  tasks := by simp [twoScenes]
  sent := by simp [twoScenes]

/-- A bundle with one default. -/
private def lampsBundle : Value :=
  objectOf [("lsml", .string "1.0"), ("scene_id", .string "lamps"),
    ("scene_version", .string placeholderHash), ("layout", .object [("kind", .string "text")]),
    ("defaults", .object [("lamp", .bool true)])]

/-- The bundle is registered and made active, its scene is seeded once more, a connection is
shown the scene, and the leaf is set. -/
private def bundleRun (b : Bundle) : List (SeededAction Value) :=
  let register := .request 0 (.registerBundle b) :: List.replicate 3 (.serve 0) ++
    activation b.sceneId
  let shown := connect 0 ++ emission 2 false ++ List.replicate 3 (operatorStep 0)
  register.map .act ++ .seed 2 [("fan", .null)] :: shown.map .act

theorem wire_clean_bundleRun :
    ∃ b, Bundle.parse valuePlatform lampsBundle = .ok b ∧
      ∃ stop, run (World.seededStep valuePlatform) twoScenes (bundleRun b) = some stop ∧
        ((stop.conns 0).outbox.map fun f => f.seq) = [some 1, some 2] ∧
        ∀ f ∈ (stop.conns 0).outbox, CleanFrame f ∧
          encodeServer valuePlatform.toTextLayer f >>= decodeServer valuePlatform.toTextLayer =
            .ok f := by
  have parses : (Bundle.parse valuePlatform lampsBundle).toOption.any (fun b =>
      b.defaults.toList = [("lamp", .bool true)] ∧
      (run (World.seededStep valuePlatform) twoScenes (bundleRun b)).any (fun stop =>
        ((stop.conns 0).outbox.map fun f => f.seq) = [some 1, some 2]) = true) = true := by
    decide
  obtain ⟨b, parsed, defaults, ends⟩ := exists_ok_of_any parses
  obtain ⟨stop, reach, sent⟩ := exists_run_of_any ends
  refine ⟨b, parsed, stop, reach, sent, ?_⟩
  have registers : (Action.request 0 (.registerBundle b) : Action Value).Legal := by
    rw [Action.Legal, defaults]
    decide
  have legal : ∀ a ∈ bundleRun b, a.Legal := by
    refine List.forall_mem_cons.mpr ⟨registers, ?_⟩
    have plain : LegalEntry ("fan", .null) := by decide
    simp [activation, connect, emission, operatorStep, SeededAction.Legal, Action.Legal, plain]
  intro f member
  obtain ⟨sound, decodes⟩ := wire_clean twoScenes_clean legal reach 0 f member
  exact ⟨sound, decodes rfl⟩

end Lumencast.Server
