import Lumencast.Protocol.RoundTrip
import Lumencast.Server.TestControl

/-!
# The control plane over HTTP

The router of the test control plane: a request is a method, a path and a JSON
body, and a response is a status and a JSON body. A body that cannot be read is
turned away by the web framework before its handler is called.

The answers that the framework gives on its own are a parameter.
-/

namespace Lumencast.Server

open Foundation Protocol

variable {Text : Type}

inductive HttpMethod where
  | get
  | post
  deriving DecidableEq, Repr

structure HttpRequest (Text : Type) where
  method : HttpMethod
  path : String
  body : Option Text := none

structure HttpResponse (Text : Type) where
  status : Nat
  body : Option Text := none
  deriving DecidableEq

/-- The answers of the web framework: to a request without a route, and to a body that
is missing or cannot be read. -/
structure Framework (Text : Type) where
  unrouted : HttpRequest Text → HttpResponse Text
  rejected : Option JsonError → HttpResponse Text

/-! ## Bodies -/

/-- `null` stands for the default. -/
def orNull {α : Type} (decode : Value → Except JsonError α) (default : α) (v : Value) :
    Except JsonError α :=
  (Decode.option decode v).map (·.getD default)

/-- A map of strings. -/
def stringsOfValue : Value → Except JsonError (Std.ExtTreeMap String String)
  | .object fields =>
      (fields.mapM fun f => (Decode.string f.2).map (Prod.mk f.1)).map (overwrite ∅)
  | _ => .error .invalidType

def SetupBundle.ofValue (v : Value) : Except JsonError SetupBundle := do
  let fields ← Decode.record ["id", "hash", "inline"] v
  let id ← Decode.required fields "id" Decode.string
  let hash ← Decode.required fields "hash" Decode.string
  let inlined ← Decode.optional fields "inline" Decode.value
  return { id, hash, inlined }

def SetupRequest.ofValue (v : Value) : Except JsonError SetupRequest := do
  let fields ← Decode.record ["scenario", "tokens", "bundles", "initial_state"] v
  let scenario ← Decode.optional fields "scenario" Decode.string
  let tokens ← Decode.defaulted fields "tokens" (orNull stringsOfValue ∅) ∅
  let bundles ← Decode.defaulted fields "bundles" (orNull (Decode.list SetupBundle.ofValue) []) []
  let initialState ← Decode.defaulted fields "initial_state" (orNull State.ofValue ∅) ∅
  return { scenario, tokens, bundles, initialState }

def emitPatchOfValue (v : Value) : Except JsonError (String × Value) := do
  let fields ← Decode.record ["path", "value"] v
  let path ← Decode.required fields "path" Decode.string
  let value ← Decode.required fields "value" Decode.value
  return (path, value)

def emitRequestOfValue (v : Value) : Except JsonError (List (String × Value)) := do
  let fields ← Decode.record ["patches"] v
  Decode.required fields "patches" (Decode.list emitPatchOfValue)

def controlPlaneVersion : Nat := 1

def serverId : String := "lumencast-rs"

def ControlResponse.status : ControlResponse → Nat
  | .setup .. | .state .. | .health => 200
  | .noContent => 204
  | .problem status .. => status
  | .emitError .. => 400

def ControlResponse.content : ControlResponse → Option Value
  | .setup wsUrl sceneId sceneVersion => some (objectOf
      [("ws_url", .string wsUrl), ("scene_id", .string sceneId),
        ("scene_version", .string sceneVersion)])
  | .state sceneId sceneVersion store => some (objectOf
      [("scene_id", .string sceneId), ("scene_version", .string sceneVersion),
        ("state", State.toValue store)])
  | .noContent => none
  | .health => some (objectOf
      [("status", .string "ok"), ("control_plane_version", natValue controlPlaneVersion),
        ("server", .string serverId)])
  | .problem status code detail => some (objectOf
      [("type", .string ("https://lumencast.dev/problems/" ++ code)), ("title", .string code),
        ("status", natValue status), ("detail", .string detail)])
  -- The optional path of the error is never set.
  | .emitError code message => some (objectOf
      [("code", .string code), ("message", .string message)])

def ControlResponse.toHttp (T : TextLayer Text) (response : ControlResponse) :
    HttpResponse Text where
  status := response.status
  body := response.content.map T.toText

/-! ## Routes -/

inductive Endpoint where
  | setup
  | reset
  | state
  | emit
  | health
  deriving DecidableEq, Repr

def Endpoint.route : Endpoint → HttpMethod × String
  | setup => (.post, "/test/setup")
  | reset => (.post, "/test/reset")
  | state => (.get, "/test/state")
  | emit => (.post, "/test/emit")
  | health => (.get, "/test/health")

def routes : List ((HttpMethod × String) × Endpoint) :=
  [.setup, .reset, .state, .emit, .health].map fun e => (e.route, e)

theorem lookup_route (e : Endpoint) : routes.lookup e.route = some e := by
  cases e <;> decide

/-- Extract the body of a request. -/
def readBody {α : Type} (T : TextLayer Text) (ofValue : Value → Except JsonError α)
    (body : Option Text) : Except (Option JsonError) α :=
  match body with
  | none => .error none
  | some text => (T.fromText text >>= ofValue).mapError some

namespace TestControl

variable (P : Platform Text) (F : Framework Text)

def serveHttp (tc : TestControl Text) (req : HttpRequest Text) :
    TestControl Text × HttpResponse Text :=
  let respond (served : TestControl Text × ControlResponse) :=
    (served.1, served.2.toHttp P.toTextLayer)
  match routes.lookup (req.method, req.path) with
  | none => (tc, F.unrouted req)
  | some .setup =>
      match readBody P.toTextLayer SetupRequest.ofValue req.body with
      | .error e => (tc, F.rejected e)
      | .ok setup => respond (tc.handleSetup P setup)
  | some .reset => respond tc.handleReset
  | some .state => respond (tc, tc.handleState)
  | some .emit =>
      match readBody P.toTextLayer emitRequestOfValue req.body with
      | .error e => (tc, F.rejected e)
      | .ok pairs => respond (tc.handleEmit P pairs)
  | some .health => respond (tc, .health)

end TestControl
end Lumencast.Server
