import FlowTree.Error
import FlowTree.Json.Record

/-!
# The backend

What nodes report to the backend of the game. A report is handed over and never waited for; whether
the backend takes it shows in the log only.
-/

namespace FlowTree

/-- What the game identifies itself to the backend with. -/
structure Credentials where
  deviceId : String := ""
  secret : String := ""
  env : String := ""
  build : String := ""
  deriving DecidableEq

namespace Credentials

def toJson (c : Credentials) : Json :=
  .obj [("build", .str c.build), ("device_id", .str c.deviceId), ("env", .str c.env),
    ("secret", .str c.secret)]

def assemble? : List (Option Json) → Option Credentials
  | [deviceId, secret, env, build] => do
    return {
      deviceId := ← Json.optional "" Json.asString? deviceId
      secret := ← Json.optional "" Json.asString? secret
      env := ← Json.optional "" Json.asString? env
      build := ← Json.optional "" Json.asString? build }
  | _ => none

def fieldNames : List Json.FieldName :=
  [⟨"device_id", none⟩, ⟨"secret", none⟩, ⟨"env", none⟩, ⟨"build", none⟩]

def ofJson? (j : Json) : Option Credentials := do
  assemble? (← Json.record? fieldNames j)

end Credentials

structure BackendAction where
  deviceId : String
  secret : String
  env : String
  build : String
  action : String
  payload : Json
  deriving DecidableEq

namespace BackendAction

def make (c : Credentials) (action : String) (payload : Json) : BackendAction :=
  { deviceId := c.deviceId, secret := c.secret, env := c.env, build := c.build, action, payload }

def toJson (a : BackendAction) : Json :=
  .obj [("action", .str a.action), ("build", .str a.build), ("deviceId", .str a.deviceId),
    ("env", .str a.env), ("payload", a.payload), ("secret", .str a.secret)]

def ofJson? (j : Json) : Option BackendAction := do
  let [deviceId, secret, env, build, action, payload] ←
    Json.record? [⟨"deviceId", none⟩, ⟨"secret", none⟩, ⟨"env", none⟩, ⟨"build", none⟩,
      ⟨"action", none⟩, ⟨"payload", none⟩] j | none
  return {
    deviceId := ← Json.required Json.asString? deviceId
    secret := ← Json.required Json.asString? secret
    env := ← Json.required Json.asString? env
    build := ← Json.required Json.asString? build
    action := ← Json.required Json.asString? action
    payload := ← Json.required Json.anything payload }

end BackendAction

/-- How a backend answers: it takes every action, it rejects every one, or it fails for a reason of
its own. In each case it records the action. -/
inductive Backend
  | accepting
  | rejecting
  | failing (reason : NodeError)
  deriving DecidableEq

def Backend.send : Backend → BackendAction → Except NodeError Unit
  | accepting, _ => .ok ()
  | rejecting, a => .error (.backendSync ("backend rejected '" ++ a.action ++ "'"))
  | failing reason, _ => .error reason

end FlowTree
