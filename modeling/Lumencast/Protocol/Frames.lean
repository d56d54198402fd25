import Lumencast.Foundation.Overwrite
import Lumencast.Protocol.LeafPath

/-!
# Frames

The records exchanged over a connection: patches with their optional animation
and provenance data, the five server frames and the four client frames. A
`State` is the flat `path → value` dictionary of a snapshot.
-/

namespace Lumencast.Protocol

open Foundation

abbrev Token := String
abbrev SceneId := String
abbrev SceneVersion := String
abbrev SessionId := String

inductive Easing where
  | linear
  | easeIn
  | easeOut
  | easeInOut
  deriving DecidableEq, Repr

/-- Per-leaf animation directive on a patch. -/
inductive TransitionSpec where
  | tween (durationMs : Option Nat) (easing : Option Easing)
  | spring (stiffness damping : Option ℚ)
  | snap
  deriving DecidableEq

/-- A single path/value assignment. -/
structure Patch where
  path : LeafPath
  value : Value
  transition : Option TransitionSpec := none
  deriving DecidableEq

/-- Optional provenance metadata on a delta. -/
structure Cause where
  source : String
  inputId : Option String := none
  deriving DecidableEq, Repr

structure SceneTransition where
  kind : String
  durationMs : Option Nat := none
  deriving DecidableEq, Repr

/-- The value is not a JSON object. -/
def Patch.isValueLegal (p : Patch) : Bool := !p.value.isObject

/-- The `path → value` pair that a patch writes. -/
def Patch.write (p : Patch) : String × Value := (p.path.str, p.value)

def checkLeafValue (value : Value) : Except String Unit :=
  if value.isObject then .error "leaf value MUST NOT be a JSON object" else .ok ()

abbrev State := Std.ExtTreeMap String Value

structure Snapshot where
  seq : Nat
  sceneId : SceneId
  sceneVersion : SceneVersion
  state : State
  ts : Option String := none
  deriving DecidableEq

structure Delta where
  seq : Nat
  patches : List Patch
  ts : Option String := none
  cause : Option Cause := none
  deriving DecidableEq

structure SceneChanged where
  seq : Nat
  sceneId : SceneId
  sceneVersion : SceneVersion
  ts : Option String := none
  fromSceneId : Option SceneId := none
  transition : Option SceneTransition := none
  deriving DecidableEq

structure ErrorFrame where
  seq : Nat
  code : ErrorCode
  message : String
  recoverable : Bool
  retryAfterMs : Option Nat := none
  path : Option String := none
  ts : Option String := none
  deriving DecidableEq, Repr

structure Pong where
  nonce : Option String := none
  deriving DecidableEq, Repr

/-- Server to client frames. -/
inductive ServerFrame where
  | snapshot (f : Snapshot)
  | delta (f : Delta)
  | sceneChanged (f : SceneChanged)
  | error (f : ErrorFrame)
  | pong (f : Pong)
  deriving DecidableEq

/-- The sequence number of a frame; `pong` has none. -/
def ServerFrame.seq : ServerFrame → Option Nat
  | snapshot f => some f.seq
  | delta f => some f.seq
  | sceneChanged f => some f.seq
  | error f => some f.seq
  | pong _ => none

structure Subscribe where
  token : Token
  scene : Option SceneId := none
  session : Option SessionId := none
  sinceSequence : Option Nat := none
  deriving DecidableEq, Repr

structure Input where
  patches : List Patch
  clientMsgId : Option String := none
  deriving DecidableEq

structure Ping where
  nonce : Option String := none
  deriving DecidableEq, Repr

structure Unsubscribe where
  deriving DecidableEq, Repr

/-- Client to server frames. -/
inductive ClientFrame where
  | subscribe (f : Subscribe)
  | input (f : Input)
  | ping (f : Ping)
  | unsubscribe (f : Unsubscribe)
  deriving DecidableEq

end Lumencast.Protocol
