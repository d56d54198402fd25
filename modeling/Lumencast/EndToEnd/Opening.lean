import Lumencast.Client.Opening
import Lumencast.Server.Grammar
import Lumencast.Server.Wire

/-!
# The client meets the server

What the client makes of the frames that the server sends it, from the opening of the
connection on. The grammar of the server's frames and their round trip say how `open` ends, and
that nothing but a gap in the numbers makes the manager give the connection up.
-/

namespace Lumencast.EndToEnd

open Foundation Protocol Server Client

variable {Text : Type}

/-- The text that a frame is encoded to. -/
def EncodedAs (T : TextLayer Text) (t : Text) (f : ServerFrame) : Prop := encodeServer T f = .ok t

/-- The shape of a talk that starts in silence. -/
theorem opening_of_talk {frames : List ServerFrame} {t : Talk}
    (heard : run Talk.hear .silent frames = some t) :
    frames = [] ∨ (∃ S later, frames = .snapshot S :: later) ∨
      ∃ f, frames = [.error f] ∧ f.recoverable = false ∧ t = .ended := by
  cases frames with
  | nil => exact .inl rfl
  | cons frame later =>
      obtain ⟨next, first, rest⟩ := run_cons_eq_some.mp heard
      cases frame with
      | snapshot S => exact .inr (.inl ⟨S, later, rfl⟩)
      | error f =>
          simp only [Talk.hear] at first
          split at first
          · cases first
          · next final =>
            cases first
            cases later with
            | nil => exact .inr (.inr ⟨f, rfl, by simpa using final, (Option.some.inj rest).symm⟩)
            | cons g later => cases rest
      | delta | sceneChanged | pong => cases first

/-- The client's own subscription does not ask to resume. -/
theorem not_resumes {T : TextLayer Text} {sub : Subscribe} {text : Text}
    (afresh : sub.sinceSequence = none) (asks : encodeClient T (.subscribe sub) = .ok text)
    (back : T.ReadsBack (ClientFrame.subscribe sub).document) :
    ¬(Message.text text).Resumes T := by
  rintro ⟨sub', decoded, since, asked, _⟩
  have again : encodeClient T (.subscribe sub) >>= decodeClient T = .ok (.subscribe sub) :=
    ClientFrame.decode_encode trivial back
  rw [asks] at again
  obtain rfl : sub' = sub := by simpa using decoded.symm.trans again
  rw [afresh] at asked
  cases asked

/-- The client opens a connection on the snapshot, and its manager goes along with the dispatch
of the frames after it. -/
def Meets (T : TextLayer Text) (errors : SocketErrors) (m : Manager) (socket : Nat)
    (ins : List (Client.Incoming Text)) (S : Snapshot) (later : List ServerFrame) : Prop :=
  ∃ rest m', awaitSnapshot T errors ins = some (.ok (S, rest)) ∧
    m.step T (.opened (.ok ⟨socket, S⟩)) = some m' ∧
    m'.notices = m.notices ++ [.status .live, .event (.snapshot S)] ∧
    KeepsUp T m' (.of ⟨socket, S⟩) rest (Client.Session.open_ S) (drive S later)

theorem meets_of_carries {T : TextLayer Text} (errors : SocketErrors) {m : Manager}
    {attempt : Nat} (socket : Nat) {ins : List (Client.Incoming Text)} {S : Snapshot}
    {later : List ServerFrame} (phase : m.phase = .connecting attempt)
    (carries : Carries (DecodesTo T) ins (.snapshot S :: later)) :
    Meets T errors m socket ins S later := by
  obtain ⟨rest, carries, opened⟩ : ∃ rest, Carries (DecodesTo T) rest later ∧
    awaitSnapshot T errors ins = some (onFirst rest (.snapshot S)) := carries.opens
  refine ⟨rest, m.connected attempt (.ok ⟨socket, S⟩), opened, ?_, rfl, ?_⟩
  · rw [Manager.step, phase]
  · exact keepsUp_of_carries carries rfl rfl rfl

/-- In every run of a server that registers bundles with legal defaults only: a client that
subscribes afresh and is sent the frames of its connection, or as many of them as have arrived,
waits, or is turned away for good, or opens the connection on a snapshot; in the last case its
manager goes along with the dispatch of the frames, so that it gives the connection up for a
gap alone. Both sides read back what they are sent. -/
theorem client_meets_server {P : Platform Text} {start stop : World Text}
    {schedule : List (Action Text)} (init : start.Init) (clean : start.Clean)
    (legal : ∀ a ∈ schedule, a.Legal)
    (reach : run (World.step P) start schedule = some stop) {c : Nat} {sub : Subscribe}
    {text : Text} (afresh : sub.sinceSequence = none)
    (asks : encodeClient P.toTextLayer (.subscribe sub) = .ok text)
    (heard : P.ReadsBack (ClientFrame.subscribe sub).document)
    (first : ∀ m ∈ ((start.conns c).inbox ++ messagesTo c schedule).head?, m = .text text)
    {arrived : List ServerFrame} {ins : List (Client.Incoming Text)}
    (sent : arrived <+: (stop.conns c).outbox)
    (carries : Carries (EncodedAs P.toTextLayer) ins arrived)
    (back : ∀ f ∈ arrived, P.ReadsBack f.document) (errors : SocketErrors)
    {m : Manager} {attempt : Nat} (phase : m.phase = .connecting attempt) (socket : Nat) :
    (arrived = [] ∧ awaitSnapshot P.toTextLayer errors ins = none) ∨
      (∃ f, arrived = [.error f] ∧ f.recoverable = false ∧ (stop.conns c).outbox = arrived ∧
        (stop.conns c).phase = .closed ∧ awaitSnapshot P.toTextLayer errors ins =
          some (.error (.serverError (f.code.asWireStr ++ ": " ++ f.message)))) ∨
      ∃ S later, arrived = .snapshot S :: later ∧
        Meets P.toTextLayer errors m socket ins S later := by
  have decodes : Carries (DecodesTo P.toTextLayer) ins arrived := by
    refine carries.mono fun f member t encoded => ?_
    have sound := (clean.run legal reach).sent c f (sent.subset member)
    have decoded := ServerFrame.decode_encode sound.legal (back f member)
    have encoded : encodeServer P.toTextLayer f = .ok t := encoded
    rw [encoded] at decoded
    exact decoded
  have silent : ¬∃ m ∈ ((start.conns c).inbox ++ messagesTo c schedule).head?,
      m.Resumes P.toTextLayer := by
    rintro ⟨m, head, resumes⟩
    rw [first m head] at resumes
    exact not_resumes afresh asks heard resumes
  obtain ⟨begins, t, none_ | ⟨_, asked⟩, said, ends⟩ := (World.talks_of_run init reach c).heard
  · subst none_
    obtain ⟨behind, outbox⟩ := sent
    rw [← outbox, run_append_eq_some] at said
    obtain ⟨mid, before, after⟩ := said
    rcases opening_of_talk before with rfl | ⟨S, later, rfl⟩ | ⟨f, rfl, final, rfl⟩
    · exact .inl ⟨rfl, decodes.awaits⟩
    · exact .inr (.inr ⟨S, later, rfl, meets_of_carries errors socket phase decodes⟩)
    · obtain ⟨rfl, rfl⟩ := Talk.ended_of_run after
      obtain ⟨rest, _, opened⟩ := decodes.opens
      refine .inr (.inl ⟨f, rfl, final, ?_, ?_, opened⟩)
      · rw [← outbox, List.append_nil]
      · exact ends.elim id fun ended => Phase.closed_of_talk ended.symm
  · exact absurd asked silent

/-- The texts of frames, one after the other. -/
theorem exists_carries (T : TextLayer Text) (frames : List ServerFrame) :
    ∃ ins, Carries (EncodedAs T) ins frames := by
  induction frames with
  | nil => exact ⟨[], .nil⟩
  | cons f frames ih =>
      obtain ⟨ins, carries⟩ := ih
      exact ⟨.text _ :: ins, .text (f.encodeServer_eq T) carries⟩

/-- A client is shown a scene and the change to another one. -/
private def guestRun : List (Action Value) :=
  connect 0 ++ activation "stage" ++ List.replicate 7 (operatorStep 0)

private def guest : Manager := .start { url := "", token := "t" }

theorem client_meets_server_guest :
    ∃ stop, run (World.step valuePlatform) twoScenes guestRun = some stop ∧
      ∃ ins S later, (stop.conns 0).outbox = .snapshot S :: later ∧ later.length = 2 ∧
        Meets valuePlatform.toTextLayer {} guest 0 ins S later := by
  have ends : (run (World.step valuePlatform) twoScenes guestRun).any (fun stop =>
      (stop.conns 0).outbox.length = 3) = true := by
    decide
  obtain ⟨stop, reach, length⟩ := exists_run_of_any ends
  obtain ⟨ins, carries⟩ := exists_carries valuePlatform.toTextLayer (stop.conns 0).outbox
  refine ⟨stop, reach, ins, ?_⟩
  have legal : ∀ a ∈ guestRun, a.Legal := by
    simp [guestRun, activation, connect, operatorStep, Action.Legal]
  have afresh : ({ token := "t" } : Subscribe).sinceSequence = none := rfl
  have phase : guest.phase = .connecting 1 := rfl
  rcases client_meets_server (P := valuePlatform) twoScenes_init twoScenes_clean legal reach
      afresh rfl rfl (by decide) (List.prefix_refl _) carries (fun _ _ => rfl) {} phase 0 with
    ⟨none_, _⟩ | ⟨f, one, _⟩ | ⟨S, later, sent, meets⟩
  · simp [none_] at length
  · simp [one] at length
  · exact ⟨S, later, sent, by simpa [sent] using length, meets⟩

end Lumencast.EndToEnd
