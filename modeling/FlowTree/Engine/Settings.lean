import FlowTree.Flow.Document
import FlowTree.World.Backend

/-!
# Settings of an engine

The settings have a default each. They are read from texts in the formats of flows, where numbers
are words of the size that the setting has.
-/

namespace FlowTree

structure Settings where
  /-- How many contexts are made when the engine starts. -/
  poolPrewarm : UInt64 := 4
  /-- How many released contexts are kept for later runs. -/
  poolMaxIdle : UInt64 := 64
  /-- The time that a script may take unless its node says otherwise. -/
  scriptTimeoutMs : UInt64 := 1000
  /-- The time that the watchdog grants a script on top. -/
  watchdogBufferMs : UInt64 := 250
  decimalSeparator : Char := '.'
  /-- How deep custom flows may call each other. -/
  maxCallDepth : UInt32 := 8
  backend : Credentials := {}
  deriving DecidableEq

namespace Settings

def locale (s : Settings) : Locale :=
  { separator := s.decimalSeparator }

def toJson (s : Settings) : Json :=
  .obj [("backend", s.backend.toJson), ("decimal_separator", .str s.decimalSeparator.toString),
    ("max_call_depth", .int s.maxCallDepth.toNat), ("pool_max_idle", .int s.poolMaxIdle.toNat),
    ("pool_prewarm", .int s.poolPrewarm.toNat), ("script_timeout_ms", .int s.scriptTimeoutMs.toNat),
    ("watchdog_buffer_ms", .int s.watchdogBufferMs.toNat)]

/-! ### Reading -/

def asWord64? (j : Json) : Option UInt64 :=
  (j.asIntIn? 0 maxWord64).map fun n => UInt64.ofNat n.toNat

def asWord32? (j : Json) : Option UInt32 :=
  (j.asIntIn? 0 maxWord32).map fun n => UInt32.ofNat n.toNat

/-- The only character of a string. -/
def asChar? : Json → Option Char
  | .str s => match s.toList with
    | [c] => some c
    | _ => none
  | _ => none

def fieldNames : List String :=
  ["pool_prewarm", "pool_max_idle", "script_timeout_ms", "watchdog_buffer_ms", "decimal_separator",
   "max_call_depth", "backend"]

/-- Settings from the values of all fields but the last one, which is `backend`. -/
def assemble? (backend : Credentials) : List (Option Json) → Option Settings
  | [poolPrewarm, poolMaxIdle, scriptTimeoutMs, watchdogBufferMs, decimalSeparator,
      maxCallDepth] => do
    return {
      poolPrewarm := ← Json.optional 4 asWord64? poolPrewarm
      poolMaxIdle := ← Json.optional 64 asWord64? poolMaxIdle
      scriptTimeoutMs := ← Json.optional 1000 asWord64? scriptTimeoutMs
      watchdogBufferMs := ← Json.optional 250 asWord64? watchdogBufferMs
      decimalSeparator := ← Json.optional '.' asChar? decimalSeparator
      maxCallDepth := ← Json.optional 8 asWord32? maxCallDepth
      backend }
  | _ => none

def ofJson? (j : Json) : Option Settings := do
  let values ← Json.record? (fieldNames.map fun n => ⟨n, none⟩) j
  let backend ← Json.optional {} Credentials.ofJson? (values.getLast?.getD none)
  assemble? backend values.dropLast

/-- The value of a field's term, `none` for a missing field. -/
def fieldValue? : Option Json.Term → Option (Option Json)
  | none => some none
  | some t => (Json.ofTerm? t).map some

def credentialsOfTerm? (t : Json.Term) : Option Credentials := do
  let terms ← Json.Term.record? (Credentials.fieldNames.map (·.name)) t
  Credentials.assemble? (← terms.mapM fieldValue?)

/-- Settings as a text writes them, in which no setting may be given twice and unknown ones need
not have values in range. -/
def ofTerm? (t : Json.Term) : Option Settings := do
  let terms ← Json.Term.record? fieldNames t
  let backend ← match terms.getLast?.getD none with
    | none => some {}
    | some t => credentialsOfTerm? t
  assemble? backend (← terms.dropLast.mapM fieldValue?)

/-- Leaves out what an array for the credentials holds behind their last field. -/
def cutCredentials : Json → Json
  | .obj fields => .obj (fields.map fun (k, v) =>
    (k, match v with
      | .arr items =>
        if k = "backend" then .arr (items.take Credentials.fieldNames.length) else .arr items
      | v => v))
  | j => j

/-- Settings from a configuration table. A moment counts as a record without fields. -/
def ofToml? (t : Toml) : Option Settings :=
  ofJson? (cutCredentials (t.toJsonWith fun _ => .obj []))

def parse (format : Format) (text : String) : Except FlowError Settings :=
  let settings := match format with
    | .json => (Json.Term.parse? text).bind ofTerm?
    | .toml => (Toml.parse? text).bind ofToml?
  match settings with
  | some s => .ok s
  | none => .error (.config "not settings of an engine")

end Settings

end FlowTree
