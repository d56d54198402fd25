import Lumencast.Foundation.Json

/-!
# Error codes and protocol failures

`ErrorCode` is the closed taxonomy carried in `error` frames. `LumencastError`
is raised while frames are encoded, decoded or validated; its display strings
reach clients as the messages of `error` frames.
-/

namespace Lumencast.Protocol

open Foundation

inductive ErrorCode where
  | authDenied
  | writeForbidden
  | sceneNotFound
  | bundleFetchFailed
  | bundleIncompatible
  | versionGap
  | versionMismatch
  | unknownPath
  | invalidValue
  | rateLimit
  | testSessionExpired
  | internal
  deriving DecidableEq, Repr

namespace ErrorCode

/-- The recoverability fixed for each code. `internal` is decided at each
emission, and `false` is only its safer default. -/
def defaultRecoverable : ErrorCode → Bool
  | writeForbidden | bundleFetchFailed | versionGap | unknownPath | invalidValue | rateLimit => true
  | authDenied | sceneNotFound | bundleIncompatible | versionMismatch | testSessionExpired
  | internal => false

def asWireStr : ErrorCode → String
  | authDenied => "AUTH_DENIED"
  | writeForbidden => "WRITE_FORBIDDEN"
  | sceneNotFound => "SCENE_NOT_FOUND"
  | bundleFetchFailed => "BUNDLE_FETCH_FAILED"
  | bundleIncompatible => "BUNDLE_INCOMPATIBLE"
  | versionGap => "VERSION_GAP"
  | versionMismatch => "VERSION_MISMATCH"
  | unknownPath => "UNKNOWN_PATH"
  | invalidValue => "INVALID_VALUE"
  | rateLimit => "RATE_LIMIT"
  | testSessionExpired => "TEST_SESSION_EXPIRED"
  | internal => "INTERNAL"

def all : List ErrorCode :=
  [authDenied, writeForbidden, sceneNotFound, bundleFetchFailed, bundleIncompatible, versionGap,
    versionMismatch, unknownPath, invalidValue, rateLimit, testSessionExpired, internal]

/-- The wire names that a typed decoder accepts. -/
def wireNames : List (String × ErrorCode) := all.map fun code => (code.asWireStr, code)

theorem lookup_asWireStr (code : ErrorCode) : wireNames.lookup code.asWireStr = some code := by
  cases code <;> decide

end ErrorCode

inductive LumencastError where
  | json (e : JsonError)
  | invalidEnvelope (message : String)
  | versionMismatch (got : Nat)
  | sequenceGap (expected got : Nat)
  | invalidValue (code : ErrorCode) (message : String) (path : Option String)
  deriving DecidableEq, Repr

namespace LumencastError

/-- The display string, given the rendering of a JSON error. -/
def display (showError : JsonError → String) : LumencastError → String
  | json e => "invalid JSON: " ++ showError e
  | invalidEnvelope message => "invalid envelope: " ++ message
  | versionMismatch got => "version mismatch: expected v=1, got v=" ++ toString got
  | sequenceGap expected got =>
      "sequence gap: expected seq=" ++ toString expected ++ ", got seq=" ++ toString got
  | invalidValue _ message _ => "invalid value: " ++ message

/-- An `INVALID_VALUE` failure that names no path. -/
def invalidValueOf (message : String) : LumencastError :=
  invalidValue .invalidValue message none

/-- An `INVALID_VALUE` failure that names the offending leaf path. -/
def invalidValueAt (path message : String) : LumencastError :=
  invalidValue .invalidValue message (some path)

def invalidPath (message : String) : LumencastError :=
  invalidValue .invalidValue ("invalid leaf path: " ++ message) none

end LumencastError
end Lumencast.Protocol
