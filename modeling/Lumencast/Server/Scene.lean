import Lumencast.Foundation.Broadcast
import Lumencast.Protocol.Bundle
import Lumencast.Server.InputSpec
import Lumencast.Server.ReplayBuffer

/-!
# Scenes

A scene is a leaf-grain store with a sequence counter, a replay ring and a
broadcast channel of deltas. An emission is four separately locked steps, kept
apart here as `applyPatches`, `advanceSeq`, `pushReplay` and `sendDelta`; the
stage machine `Emission` performs them one at a time and `emitWithCause` all at
once. `emission_run` relates the two.
-/

namespace Lumencast.Server

open Foundation Protocol

variable {Text : Type}

/-- Capacity of the per-scene broadcast channel. -/
def broadcastCapacity : Nat := 1024

/-- The payload of the delta broadcast, shared by all subscribers. -/
structure DeltaPayload where
  seq : Nat
  patches : List Patch
  cause : Option Cause
  deriving DecidableEq

structure SceneRejection where
  code : ErrorCode
  message : String
  deriving DecidableEq, Repr

/-- Why `check_input_patch` refuses a patch. -/
structure InputRejection where
  code : ErrorCode
  message : String
  path : String
  deriving DecidableEq, Repr

inductive ServerError where
  | protocol (e : LumencastError)
  | bundle (e : BundleError)
  | unknownScene (id : String)
  | duplicateScene (id : String)
  | invalidValue (message : String)
  deriving DecidableEq, Repr

def ServerError.display (T : TextLayer Text) : ServerError → String
  | protocol e => "protocol: " ++ e.display T.showError
  | bundle e => "bundle: " ++ e.display T.showError
  | unknownScene id => "unknown scene: " ++ id
  | duplicateScene id => "scene already exists: " ++ id
  | invalidValue message => "invalid value: " ++ message

structure Scene (Text : Type) where
  id : SceneId
  version : SceneVersion
  store : State
  tx : Broadcast DeltaPayload
  seq : Nat
  replay : ReplayBuffer
  bundleBytes : Option Text
  declaredInputs : Option (Std.ExtTreeMap String InputSpec)
  rejection : Option SceneRejection

/-- The path/value pairs that a list of patches writes, in order. -/
def writes (patches : List Patch) : List (String × Value) := patches.map Patch.write

/-- Validate one pair of an emission. -/
def parsePair (pair : String × Value) : Except ServerError Patch :=
  match LeafPath.parse pair.1 with
  | .error e => .error (.protocol e)
  | .ok path =>
      match checkLeafValue pair.2 with
      | .error e => .error (.invalidValue e)
      | .ok () => .ok { path, value := pair.2 }

/-- The validation loop of an emission; nothing is written unless every pair is legal. -/
def parsePairs (pairs : List (String × Value)) : Except ServerError (List Patch) :=
  pairs.mapM parsePair

namespace Scene

def new (id : SceneId) (version : SceneVersion) : Scene Text where
  id := id
  version := version
  store := ∅
  tx := Broadcast.new broadcastCapacity
  seq := 1
  replay := ReplayBuffer.new defaultReplayBufferSize
  bundleBytes := none
  declaredInputs := none
  rejection := none

variable (s : Scene Text)

def currentSeq : Nat := s.seq

def replaySince (sinceSeq : Nat) : ReplaySlice := s.replay.since sinceSeq

def snapshotState : State := s.store

def attachBundleBytes (bytes : Text) : Scene Text := { s with bundleBytes := some bytes }

def reject (code : ErrorCode) (message : String) : Scene Text :=
  { s with rejection := some ⟨code, message⟩ }

/-- Write defaults into the store, bypassing the broadcast channel. -/
def seed (defaults : List (String × Value)) : Scene Text :=
  { s with store := overwrite s.store defaults }

def withOperatorInputs (specs : List InputSpec) : Scene Text :=
  { s with declaredInputs := some (overwrite ∅ (specs.map fun spec => (spec.path.str, spec))) }

/-- Validate one patch against the declared inputs, if the scene has any. -/
def checkInputPatch (T : TextLayer Text) (patch : Patch) : Except InputRejection Unit :=
  match s.declaredInputs with
  | none => .ok ()
  | some declared =>
      match declared[patch.path.str]? with
      | none => .error
          { code := .unknownPath
            message := "path LeafPath(" ++ debugStr patch.path.str ++
              ") not declared in operator_inputs"
            path := patch.path.str }
      | some spec =>
          match checkConstraint T spec patch.value with
          | some message => .error { code := .invalidValue, message, path := patch.path.str }
          | none => .ok ()

/-! ## The locked steps of an emission -/

def applyPatches (patches : List Patch) : Scene Text :=
  { s with store := overwrite s.store (writes patches) }

/-- The number that the next counter increment hands out. -/
def nextSeq : Nat := s.seq + 1

def advanceSeq : Scene Text := { s with seq := s.nextSeq }

def pushReplay (record : ReplayRecord) : Scene Text := { s with replay := s.replay.push record }

def sendDelta (payload : DeltaPayload) : Scene Text := { s with tx := s.tx.send payload }

/-- An emission of validated patches, its steps taken without interruption. -/
def publish (patches : List Patch) (cause : Option Cause) : Scene Text :=
  let s := (s.applyPatches patches).advanceSeq
  (s.pushReplay ⟨s.seq, patches, cause⟩).sendDelta ⟨s.seq, patches, cause⟩

/-- Apply many pairs and broadcast one delta containing all of them. -/
def emitWithCause (pairs : List (String × Value)) (cause : Option Cause) :
    Except ServerError (Scene Text) := do
  let parsed ← parsePairs pairs
  return if parsed.isEmpty then s else s.publish parsed cause

def emit (pairs : List (String × Value)) : Except ServerError (Scene Text) :=
  s.emitWithCause pairs none

/-- Set a single leaf and broadcast the resulting patch. -/
def set (path : String) (value : Value) : Except ServerError (Scene Text) := do
  let patch ← parsePair (path, value)
  return s.publish [patch] none

end Scene

/-- Where an emission in progress stands; a number is held once it is allocated. -/
inductive EmitStage where
  | write
  | number
  | push (seq : Nat)
  | send (seq : Nat)
  deriving DecidableEq, Repr

/-- An emission in progress, after its validation. -/
structure Emission where
  patches : List Patch
  cause : Option Cause
  stage : EmitStage := .write
  deriving DecidableEq

namespace Emission

/-- One locked step; `none` when the emission has returned. -/
def step (e : Emission) (s : Scene Text) : Scene Text × Option Emission :=
  match e.stage with
  | .write => (s.applyPatches e.patches, some { e with stage := .number })
  | .number => (s.advanceSeq, some { e with stage := .push s.nextSeq })
  | .push seq => (s.pushReplay ⟨seq, e.patches, e.cause⟩, some { e with stage := .send seq })
  | .send seq => (s.sendDelta ⟨seq, e.patches, e.cause⟩, none)

/-- The number the emission holds, once it has one. -/
def number (e : Emission) : Option Nat :=
  match e.stage with
  | .push seq | .send seq => some seq
  | _ => none

/-- The emission has written the store. -/
def written (e : Emission) : Bool := e.stage ≠ .write

/-- The emission has written the store and holds no number yet. -/
def unnumbered (e : Emission) : Bool := e.stage = .number

/-- Perform the remaining steps without interruption. -/
def finish : Nat → Emission → Scene Text → Scene Text
  | 0, _, s => s
  | n + 1, e, s =>
      match e.step s with
      | (s, some e) => finish n e s
      | (s, none) => s

end Emission

/-- Four uninterrupted locked steps are one emission. -/
theorem emission_run (s : Scene Text) (patches : List Patch) (cause : Option Cause) :
    Emission.finish 4 { patches, cause } s = s.publish patches cause := rfl

namespace Scene

variable (s : Scene Text) (patches : List Patch) (cause : Option Cause)

@[simp] theorem publish_store :
    (s.publish patches cause).store = overwrite s.store (writes patches) := rfl

@[simp] theorem publish_seq : (s.publish patches cause).seq = s.seq + 1 := rfl

@[simp] theorem publish_replay :
    (s.publish patches cause).replay = s.replay.push ⟨s.seq + 1, patches, cause⟩ := rfl

@[simp] theorem publish_tx :
    (s.publish patches cause).tx = s.tx.send ⟨s.seq + 1, patches, cause⟩ := rfl

@[simp] theorem publish_declaredInputs :
    (s.publish patches cause).declaredInputs = s.declaredInputs := rfl

end Scene

/-- A validated patch keeps its pair, which has a legal path and value. -/
theorem parsePair_eq_ok {pair : String × Value} {p : Patch} :
    parsePair pair = .ok p ↔
      LeafPath.Valid pair.1 ∧ pair.2.isObject = false ∧ p = ⟨⟨pair.1⟩, pair.2, none⟩ := by
  unfold parsePair
  cases parsed : LeafPath.parse pair.1 with
  | error e =>
      simp only [reduceCtorEq, false_iff, not_and]
      intro valid
      rw [LeafPath.parse_of_valid valid] at parsed
      cases parsed
  | ok path =>
      obtain ⟨valid, rfl⟩ := LeafPath.parse_eq_ok.mp parsed
      cases object : pair.2.isObject <;> simp [checkLeafValue, object, valid, eq_comm]

theorem writes_of_parsePairs {pairs : List (String × Value)} {patches : List Patch}
    (h : parsePairs pairs = .ok patches) : writes patches = pairs := by
  have pointwise := mapM_eq_ok.mp h
  clear h
  induction pointwise with
  | nil => rfl
  | cons head _ ih =>
      obtain ⟨_, _, rfl⟩ := parsePair_eq_ok.mp head
      rw [writes, List.map_cons, ← writes, ih]
      rfl

/-- Every validated patch has a parsed path and a legal value. -/
theorem legal_of_parsePairs {pairs : List (String × Value)} {patches : List Patch}
    (h : parsePairs pairs = .ok patches) :
    ∀ w ∈ writes patches, LeafPath.Valid w.1 ∧ w.2.isObject = false := by
  intro w member
  obtain ⟨p, hp, rfl⟩ := List.mem_map.mp member
  obtain ⟨pair, _, parsed⟩ := exists_of_mem_mapM h p hp
  obtain ⟨valid, legal, rfl⟩ := parsePair_eq_ok.mp parsed
  exact ⟨valid, legal⟩

/-- Pairs with legal paths and values are all accepted. -/
theorem parsePairs_of_legal {pairs : List (String × Value)}
    (legal : ∀ pair ∈ pairs, LeafPath.Valid pair.1 ∧ pair.2.isObject = false) :
    parsePairs pairs = .ok (pairs.map fun pair => ⟨⟨pair.1⟩, pair.2, none⟩) := by
  apply mapM_eq_ok.mpr
  rw [List.forall₂_map_right_iff, List.forall₂_same]
  intro pair member
  exact parsePair_eq_ok.mpr ⟨(legal pair member).1, (legal pair member).2, rfl⟩

end Lumencast.Server
