import Lumencast.Protocol.Frames

/-!
# Operator-input declarations

An `InputSpec` declares one writable path of a scene with an optional type tag
and constraints. `checkConstraint` returns the description of a violation, and
`none` for a legal value. The type tag is checked first; further constraints
exist for strings, numbers and enumerations only.
-/

namespace Lumencast.Server

open Foundation Protocol

variable {Text : Type}

inductive InputType where
  | string
  | number
  | boolean
  | enum
  | color
  | date
  | time
  | pathRef
  | imageRef
  deriving DecidableEq, Repr

namespace InputType

def wireNames : List (String × InputType) :=
  [("string", string), ("number", number), ("boolean", boolean), ("enum", enum),
    ("color", color), ("date", date), ("time", time), ("path-ref", pathRef),
    ("image-ref", imageRef)]

def debug : InputType → String
  | string => "String"
  | number => "Number"
  | boolean => "Boolean"
  | enum => "Enum"
  | color => "Color"
  | date => "Date"
  | time => "Time"
  | pathRef => "PathRef"
  | imageRef => "ImageRef"

end InputType

structure InputSpec where
  path : LeafPath
  kind : Option InputType := none
  maxLength : Option Nat := none
  min : Option ℚ := none
  max : Option ℚ := none
  values : List String := []
  deriving DecidableEq

def jsonKindLabel : Value → String
  | .null => "null"
  | .bool _ => "boolean"
  | .number _ => "number"
  | .string _ => "string"
  | .array _ => "array"
  | .object _ => "object"

def isString : Value → Bool
  | .string _ => true
  | _ => false

def isNumber : Value → Bool
  | .number _ => true
  | _ => false

def isBoolean : Value → Bool
  | .bool _ => true
  | _ => false

/-- The type test of each tag: every tag but two stands for a string. -/
def InputType.admits : InputType → Value → Bool
  | number => isNumber
  | boolean => isBoolean
  | _ => isString

def checkType (kind : InputType) (value : Value) : Option String :=
  if kind.admits value then none
  else some ("expected " ++ kind.debug ++ " type, got " ++ jsonKindLabel value)

def checkString (spec : InputSpec) (value : Value) : Option String := do
  let s ← value.asStr
  let max ← spec.maxLength
  if s.length > max then
    some ("string length " ++ toString s.length ++ " exceeds max_length " ++ toString max)
  else none

def checkNumber (T : TextLayer Text) (spec : InputSpec) (value : Value) : Option String := do
  let n ← value.asF64
  let below := spec.min.bind fun min =>
    if n < min then some ("value " ++ T.showFloat n ++ " below min " ++ T.showFloat min) else none
  let above := spec.max.bind fun max =>
    if n > max then some ("value " ++ T.showFloat n ++ " above max " ++ T.showFloat max) else none
  below.or above

def checkEnum (spec : InputSpec) (value : Value) : Option String := do
  let s ← value.asStr
  if spec.values.isEmpty || spec.values.contains s then none
  else some ("value " ++ debugStr s ++ " not in enum [" ++
    ", ".intercalate (spec.values.map debugStr) ++ "]")

/-- The description of how `value` violates the declaration, if it does. -/
def checkConstraint (T : TextLayer Text) (spec : InputSpec) (value : Value) : Option String :=
  match spec.kind.bind fun kind => checkType kind value with
  | some message => some message
  | none =>
      match spec.kind with
      | some .string => checkString spec value
      | some .number => checkNumber T spec value
      | some .enum => checkEnum spec value
      | _ => none

/-- The declared type and constraints admit the value. -/
def InputSpec.Admits (T : TextLayer Text) (spec : InputSpec) (value : Value) : Prop :=
  checkConstraint T spec value = none

instance (T : TextLayer Text) (spec : InputSpec) (value : Value) :
    Decidable (spec.Admits T value) :=
  inferInstanceAs (Decidable (checkConstraint T spec value = none))

end Lumencast.Server
