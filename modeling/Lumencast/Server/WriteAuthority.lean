import Lumencast.Server.SceneOp
import Lumencast.Server.World

/-!
# Who may write what

`Floor` is the server as text frames see it: the scenes, and for each
authenticated connection its identity, its current scene and its rate limiter.
Frames are processed one after the other, each to its end; `frame_run` relates
this to the handler steps and the locked steps of the emission they start.

A frame changes a stored value only under the authority of its connection, and
nothing else: every check of the handler is a field of `Authorised`.
-/

namespace Lumencast.Server

open Foundation Protocol

variable {Text : Type}

/-- An authenticated connection in its main loop. -/
structure Session where
  identity : Identity
  scene : SceneRef
  rate : RateBucket
  running : Bool := true
  deriving DecidableEq

structure Floor (Text : Type) where
  scenes : SceneRef → Scene Text
  sessions : Nat → Session

/-- A text frame of a connection, with the time at which it is handled. -/
structure Incoming (Text : Type) where
  conn : Nat
  now : Nat
  text : Text
  deriving DecidableEq

/-- The connection ends after the verdict. -/
def Verdict.stops : Verdict → Bool
  | refuse _ last => last
  | stop => true
  | _ => false

namespace Floor

/-- Handle a frame to its end. -/
def process (T : TextLayer Text) (fl : Floor Text) (f : Incoming Text) : Floor Text :=
  let session := fl.sessions f.conn
  if !session.running then fl
  else
    let scene := fl.scenes session.scene
    let (verdict, rate) := handleTextFrame T scene session.identity session.rate f.now f.text
    { scenes := Function.update fl.scenes session.scene (verdict.apply scene)
      sessions := Function.update fl.sessions f.conn
        { session with rate, running := !verdict.stops } }

/-- Frames of a connection that has ended are not read. -/
theorem process_scenes (T : TextLayer Text) (fl : Floor Text) (f : Incoming Text) :
    (fl.process T f).scenes = fl.scenes ∨
      (fl.process T f).scenes = Function.update fl.scenes (fl.sessions f.conn).scene
        ((fl.scenes (fl.sessions f.conn).scene).apply T
          (.frame (fl.sessions f.conn).identity (fl.sessions f.conn).rate f.now f.text)) := by
  cases running : (fl.sessions f.conn).running with
  | false => exact .inl (by simp [process, running])
  | true => exact .inr (by simp [process, running, Scene.apply])

def processAll (T : TextLayer Text) (fl : Floor Text) (frames : List (Incoming Text)) :
    Floor Text :=
  frames.foldl (process T) fl

end Floor

/-- What the handler has checked before the identity's value `v` is stored at `k`. -/
structure Authorised (T : TextLayer Text) (identity : Identity) (scene : Scene Text)
    (k : String) (v : Value) : Prop where
  notViewer : identity.role ≠ .viewer
  /-- The first segment of the key is the namespace of the role. -/
  inNamespace : ∃ head, identity.role.namespaceHead = some head ∧
    (segments k).head? = some head.toList
  /-- One of the prefixes that a service is scoped to is a prefix of the key's segments. -/
  inScope : identity.role = .service → ∀ prefixes, identity.paths = some prefixes →
    prefixes ≠ [] → ∃ pre ∈ prefixes, segments pre <+: segments k
  declared : ∀ table, scene.declaredInputs = some table →
    ∃ spec, table[k]? = some spec ∧ spec.Admits T v

variable {T : TextLayer Text}

theorem admits_of_checkInputPatch {scene : Scene Text} {p : Patch}
    (checked : scene.checkInputPatch T p = .ok ()) :
    ∀ table, scene.declaredInputs = some table →
      ∃ spec, table[p.path.str]? = some spec ∧ spec.Admits T p.value := by
  intro table declared
  unfold Scene.checkInputPatch at checked
  rw [declared] at checked
  simp only at checked
  cases found : table[p.path.str]? with
  | none => simp [found] at checked
  | some spec =>
      rw [found] at checked
      simp only at checked
      split at checked
      · cases checked
      · exact ⟨spec, rfl, ‹_›⟩

/-- An admitted patch is written under the authority of the identity. -/
theorem Admitted.authorised {scene : Scene Text} {identity : Identity} {p : Patch}
    (admitted : Admitted T scene identity p) :
    Authorised T identity scene p.path.str p.value where
  notViewer := Role.ne_viewer_of_canWrite admitted.writable
  inNamespace := by
    obtain ⟨head, namespaced, starts⟩ := Role.startsWithPrefix_of_canWrite admitted.writable
    refine ⟨head, namespaced, ?_⟩
    have undotted : segments head = [head.toList] := by
      cases role : identity.role <;> simp only [role, Role.namespaceHead] at namespaced <;>
        cases namespaced <;> rfl
    obtain ⟨rest, eq⟩ := LeafPath.segments_prefix_of_startsWithPrefix starts
    rw [← eq, undotted]
    rfl
  inScope := by
    intro role prefixes paths nonempty
    have writable := admitted.writable
    rw [role, paths] at writable
    obtain ⟨pre, listed, starts⟩ :=
      (Role.canWrite_service_iff.mp writable).2 prefixes rfl nonempty
    exact ⟨pre, listed, LeafPath.segments_prefix_of_startsWithPrefix starts⟩
  declared := admits_of_checkInputPatch admitted.declared

/-- A frame that changes the value at a key had the authority to. -/
theorem authorised_of_apply_frame {scene : Scene Text} {identity : Identity} {rate : RateBucket}
    {now : Nat} {text : Text} {k : String}
    (changed : (scene.apply T (.frame identity rate now text)).store[k]? ≠ scene.store[k]?) :
    ∃ v, (scene.apply T (.frame identity rate now text)).store[k]? = some v ∧
      Authorised T identity scene k v := by
  rcases scene.apply_frame (T := T) identity rate now text with
    same | ⟨input, patches, cause, _, _, _, admitted, parsed, published⟩
  · exact absurd (by rw [same]) changed
  · rw [published, Scene.publish_store, writes_of_parsePairs parsed,
      getElem?_overwrite] at changed ⊢
    cases written : lastWrite compare (writes input.patches) k with
    | none => simp [written] at changed
    | some v =>
        obtain ⟨p, member, eq⟩ := List.mem_map.mp (mem_of_lastWrite written)
        obtain ⟨rfl, rfl⟩ := Prod.mk.inj eq
        exact ⟨p.value, rfl, (admitted p member).authorised⟩

namespace Floor

/-- For every sequence of frames from any connections: the next frame changes no other
scene than the current one of its connection, and changes only values there that the
identity has the authority to write. -/
theorem write_authority (T : TextLayer Text) (start : Floor Text)
    (frames : List (Incoming Text)) (f : Incoming Text) :
    let before := start.processAll T frames
    let after := before.process T f
    let session := before.sessions f.conn
    (∀ r, r ≠ session.scene → after.scenes r = before.scenes r) ∧
      ∀ r k, (after.scenes r).store[k]? ≠ (before.scenes r).store[k]? →
        r = session.scene ∧ ∃ v, (after.scenes r).store[k]? = some v ∧
          Authorised T session.identity (before.scenes r) k v := by
  intro before after session
  rcases process_scenes T before f with same | moved
  · exact ⟨fun r _ => congrFun same r, fun r k changed => absurd (by rw [same]) changed⟩
  · have elsewhere : ∀ r, r ≠ session.scene → after.scenes r = before.scenes r := fun r apart =>
      (congrFun moved r).trans (Function.update_of_ne apart ..)
    refine ⟨elsewhere, fun r k changed => ?_⟩
    obtain rfl : r = session.scene := by
      by_contra apart
      exact changed (by rw [elsewhere r apart])
    have here : after.scenes session.scene = (before.scenes session.scene).apply T
        (.frame session.identity session.rate f.now f.text) :=
      (congrFun moved _).trans (Function.update_self ..)
    rw [here] at changed ⊢
    exact ⟨rfl, authorised_of_apply_frame changed⟩

private def studioFloor : Floor Value where
  scenes := fun _ => Scene.new "studio" "v1"
  sessions := fun _ =>
    { identity := { subject := "", role := .operator }, scene := 0, rate := RateBucket.new 0 0 }

private def lampInput : Incoming Value where
  conn := 0
  now := 0
  text := .object [("patches", .array [.object [("path", .string "__inputs.lamp"),
    ("value", .bool true)]]), ("type", .string "input"), ("v", .number (.posInt 1))]

theorem write_authority_lampInput :
    let T := valuePlatform.toTextLayer
    let before := studioFloor.processAll T []
    let after := before.process T lampInput
    (after.scenes 0).store["__inputs.lamp"]? ≠ (before.scenes 0).store["__inputs.lamp"]? ∧
      ∃ v, (after.scenes 0).store["__inputs.lamp"]? = some v ∧
        Authorised T (before.sessions 0).identity (before.scenes 0) "__inputs.lamp" v := by
  intro T before after
  have changed : (after.scenes 0).store["__inputs.lamp"]? ≠
      (before.scenes 0).store["__inputs.lamp"]? := by
    decide
  exact ⟨changed, ((write_authority T studioFloor [] lampInput).2 0 "__inputs.lamp" changed).2⟩

end Floor

/-! ## Frames as handler steps -/

namespace World

variable {P : Platform Text}

theorem setCell_setCell (inner : ServerInner Text) (r : SceneRef) (cell cell' : SceneCell Text) :
    (inner.setCell r cell).setCell r cell' = inner.setCell r cell' := by
  simp [ServerInner.setCell]

/-- The locked steps of the emissions on one scene. -/
theorem run_scene {r : SceneRef} {actions : List SceneAction}
    (external : ∀ a ∈ actions, a.isExternal = true) {w : World Text} {cell : SceneCell Text}
    (exists_ : r < w.inner.nextRef)
    (ran : Foundation.run SceneCell.step (w.inner.heap r) actions = some cell) :
    Foundation.run (step P) w (actions.map (.scene r)) =
      some { w with inner := w.inner.setCell r cell } := by
  induction actions generalizing w with
  | nil =>
      cases ran
      simp [ServerInner.setCell]
  | cons a actions ih =>
      obtain ⟨next, stepped, rest⟩ := run_cons_eq_some.mp ran
      have first : w.step P (.scene r a) =
          some { w with inner := w.inner.setCell r next } := by
        simp [step, ServerInner.onScene, stepped, exists_, external a List.mem_cons_self]
      have held : (w.inner.setCell r next).heap r = next := Function.update_self ..
      have later := @ih (fun a h => external a (List.mem_cons_of_mem _ h))
        { w with inner := w.inner.setCell r next } exists_ (by rw [held]; exact rest)
      rw [List.map_cons, run_cons, first, Option.bind_some, later, setCell_setCell]

/-- The floor that a connection to the scene `r` stands on. -/
structure Shows (w : World Text) (c : Nat) (r : SceneRef) (fl : Floor Text) : Prop where
  scenes : ∀ q, fl.scenes q = (w.inner.heap q).scene
  identity : (fl.sessions c).identity = (w.conns c).identity
  scene : (fl.sessions c).scene = r
  rate : (fl.sessions c).rate = (w.conns c).rate
  running : (fl.sessions c).running = true

/-- What the handler does when it reads a text frame. -/
theorem handler_text {w : World Text} {c : Nat} {r : SceneRef} {text : Text}
    {rest : List (Message Text)} (live : (w.conns c).phase = .live)
    (current : (w.conns c).current = some r) (received : (w.conns c).inbox = .text text :: rest)
    (idle : w.busy c = false) (amb : Ambient) :
    w.step P (.handler c amb) =
      let o := { w.conns c with inbox := rest }.onMessage P.toTextLayer c r
        (w.inner.heap r).scene amb (.text text)
      (w.inner.perform o.effect).map fun inner => { w.setConn c o.conn with inner } := by
  simp only [step, idle, Bool.false_eq_true, if_false, Connection.step, live, current,
    Option.map_some, received, Option.bind_some]

/-- A handler that reads a text frame, and then takes the steps of the emission that
the frame may start, does to the scenes and to its limiter what `process` does. -/
theorem frame_run {w : World Text} {c : Nat} {r : SceneRef} {fl : Floor Text} {text : Text}
    {rest : List (Message Text)} (shows : w.Shows c r fl) (exists_ : r < w.inner.nextRef)
    (live : (w.conns c).phase = .live) (current : (w.conns c).current = some r)
    (received : (w.conns c).inbox = .text text :: rest) (idle : w.busy c = false)
    (amb : Ambient) :
    ∃ n w', Foundation.run (step P) w
        (.handler c amb :: List.replicate n (.scene r (.progress (.handler c)))) = some w' ∧
      let after := fl.process P.toTextLayer ⟨c, amb.clock.instant, text⟩
      (∀ q, after.scenes q = (w'.inner.heap q).scene) ∧
        (after.sessions c).rate = (w'.conns c).rate := by
  obtain ⟨scenes, identity, scene, rate, running⟩ := shows
  have first := handler_text (P := P) live current received idle amb
  rcases handled : handleTextFrame P.toTextLayer (w.inner.heap r).scene (w.conns c).identity
    (w.conns c).rate amb.clock.instant text with ⟨verdict, rate'⟩
  have processed : fl.process P.toTextLayer ⟨c, amb.clock.instant, text⟩ =
      { scenes := Function.update fl.scenes r (verdict.apply (w.inner.heap r).scene)
        sessions := Function.update fl.sessions c
          { fl.sessions c with rate := rate', running := !verdict.stops } } := by
    simp [Floor.process, running, identity, scene, rate, scenes, handled]
  simp only [Connection.onMessage, handled] at first
  rw [processed]
  cases verdict with
  | publish patches cause =>
      obtain ⟨input, _, accepted⟩ := handleTextFrame_eq_publish.mp handled
      obtain ⟨_, nonempty, _, _, parsed, _⟩ := handleInput_eq_publish.mp accepted
      have again : parsePairs (writes patches) = .ok patches := by
        rw [writes_of_parsePairs parsed]
        exact parsed
      obtain ⟨p, more, rfl⟩ : ∃ p more, patches = p :: more := by
        cases patches with
        | nil => exact absurd (List.map_eq_nil_iff.mp (writes_of_parsePairs parsed).symm) nonempty
        | cons p more => exact ⟨p, more, rfl⟩
      have free : (w.inner.heap r).emission (.handler c) = none := by
        simpa [busy, current] using idle
      let begun : SceneCell Text := { w.inner.heap r with
        calls := (w.inner.heap r).calls ++ [(.handler c, { patches := p :: more, cause })] }
      have asked : w.inner.onScene r (.emit (.handler c) (writes (p :: more)) cause) =
          some (w.inner.setCell r begun) := by
        simp [ServerInner.onScene, SceneCell.step, free, again, begun]
      have found : begun.emission (.handler c) = some { patches := p :: more, cause } := by
        rw [SceneCell.emission, List.lookup_append, ← SceneCell.emission, free]
        simp
      simp only [ServerInner.perform, asked, Option.map_some] at first
      let mid : World Text :=
        { w.setConn c { w.conns c with inbox := rest, rate := rate' } with
          inner := w.inner.setCell r begun }
      have held : mid.inner.heap r = begun := Function.update_self ..
      have steps := SceneCell.run_emission found
      rw [← held] at steps
      have progressed := run_scene (P := P) (w := mid)
        (fun a h => by rw [List.eq_of_mem_replicate h]; rfl) exists_ steps
      rw [List.map_replicate] at progressed
      refine ⟨4, _, by rw [run_cons, first]; exact progressed, fun q => ?_, ?_⟩
      · by_cases same : q = r
        · subst same
          simp [ServerInner.setCell, SceneCell.advance, Verdict.apply, held, begun]
        · simp [ServerInner.setCell, mid, same, scenes]
      · simp [mid, setConn]
  | answer f | refuse reply stop | stop | ignore =>
      refine ⟨0, _, by rw [List.replicate_zero, run_cons, first]; rfl, fun q => ?_, ?_⟩
      · by_cases same : q = r
        · subst same
          simp [Verdict.apply]
        · simp [same, scenes]
      · simp [setConn, Connection.send, Connection.goto]

end World

end Lumencast.Server
