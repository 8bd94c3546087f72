import FlowTree.Script.Error
import FlowTree.Script.Pattern

/-!
# Vetting

A source that mentions an interface out of reach for scripts is rejected before it runs. The list of
such mentions is advice to authors and no guarantee: what contains a script is where it runs.
-/

namespace FlowTree.Script

/-- What a forbidden mention would give access to. -/
inductive Danger
  | moduleAccess
  | reflection
  | network
  | filesystem
  | timers
  | escapeHatch
  deriving DecidableEq, Repr

def Danger.description : Danger → String
  | moduleAccess => "module/process access"
  | reflection => "reflection/prototype manipulation"
  | network => "network access"
  | filesystem => "filesystem/process spawn"
  | timers => "timers"
  | escapeHatch => "dynamic code execution"

namespace Vetting

open Pattern (word)

/-- A mention of one of the names as a call. -/
def call (names : List String) : Pattern :=
  [.edge, .oneOf names, .gap, word "("]

/-- A mention of one of the names in front of a point. -/
def member (names : List String) : Pattern :=
  [.edge, .oneOf names, .gap, word "."]

/-- A mention of a name by itself. -/
def name (n : String) : Pattern :=
  [.edge, word n, .edge]

/-- A line that starts with a keyword. -/
def statement (keyword : String) : Pattern :=
  [.lineStart, .gap, word keyword, .blank]

def rules : List (Danger × Pattern) :=
  [(.moduleAccess, call ["require"]),
   (.moduleAccess, call ["import"]),
   (.moduleAccess, statement "import"),
   (.moduleAccess, statement "export"),
   (.moduleAccess, [.edge, word "module", .gap, word ".", .gap, word "exports", .edge]),
   (.moduleAccess, member ["process"]),
   (.moduleAccess, name "globalThis"),
   (.moduleAccess, member ["global"]),
   (.reflection, [word "__proto__"]),
   (.reflection, name "prototype"),
   (.reflection, [word ".", .gap, word "constructor", .edge]),
   (.reflection, member ["Reflect"]),
   (.reflection, name "Proxy"),
   (.reflection, [.edge, word "Object", .gap, word ".", .gap,
      .oneOf ["setPrototypeOf", "getPrototypeOf", "defineProperty", "defineProperties",
        "getOwnPropertyDescriptors", "getOwnPropertyDescriptor"], .edge]),
   (.reflection, [word "__", .oneOf ["define", "lookup"], .oneOf ["Getter", "Setter"], word "__"]),
   (.network, call ["fetch"]),
   (.network, name "XMLHttpRequest"),
   (.network, name "WebSocket"),
   (.network, member ["navigator"]),
   (.network, member ["location"]),
   (.network, member ["document"]),
   (.network, member ["window"]),
   (.filesystem, name "child_process"),
   (.filesystem, member ["fs"]),
   (.filesystem, call ["spawn", "spawnSync", "execSync", "execFile", "fork"]),
   (.filesystem, member ["Deno", "Bun"]),
   (.timers, call ["setTimeout", "setInterval", "setImmediate"]),
   (.timers, call ["queueMicrotask"]),
   (.timers, call ["requestAnimationFrame"]),
   (.escapeHatch, call ["eval"]),
   (.escapeHatch, call ["Function"]),
   (.escapeHatch, [.edge, word "new", .blank, .gap, word "Function", .edge]),
   (.escapeHatch, name "WebAssembly"),
   (.escapeHatch, call ["importScripts"]),
   (.escapeHatch, name "SharedArrayBuffer"),
   (.escapeHatch, member ["Atomics"]),
   (.escapeHatch, name "debugger")]

end Vetting

/-- A forbidden mention, without the blanks at its ends. -/
structure Violation where
  danger : Danger
  matched : String
  deriving DecidableEq, Repr

def Violation.message (v : Violation) : String :=
  "'" ++ v.matched ++ "' (" ++ v.danger.description ++ ")"

/-- The first mention of a source that a rule forbids. -/
def violation? (source : String) (rule : Danger × Pattern) : Option Violation :=
  (rule.2.find? source.toList).map fun m => ⟨rule.1, String.ofList (Text.trim m)⟩

/-- The first mention that each rule forbids, in the order of the rules. -/
def violations (source : String) : List Violation :=
  Vetting.rules.filterMap (violation? source)

/-- Accepts a source without forbidden mentions. -/
def vet (source : String) : Except ScriptError Unit :=
  match violations source with
  | [] => .ok ()
  | vs => .error (.unsafeCode (", ".intercalate (vs.map Violation.message)))

end FlowTree.Script
