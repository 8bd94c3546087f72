import FlowTree.Decimal.Layout
import FlowTree.Flow.Tag

/-!
# Errors of nodes and flows

An error is the cause for which a node fails or a document is refused. Its wording is a function of
the cause.
-/

namespace FlowTree

/-- Why a node's parameters, or its operation, do not serve. -/
inductive Invalid
  | missing (op : Tag) (key : String)
  | notReference (op : Tag) (key : String)
  | unreadable (op : Tag) (key : String)
  /-- The node's operation is not of the kind that is asked for. -/
  | wrongKind (op : Tag) (kind : String)
  | noSplits
  | badShares
  | clampOrder (min max : Float)
  | randomSpan (min max : Float)
  | randomOrder (min max : Float)
  | randomNoInteger (min max : Float)
  | eventData
  | statKind (op : Tag) (stat kind : String)
  | callDepth (trigger : String) (limit : Nat)
  | note (text : String)
  deriving DecidableEq

namespace Invalid

def message : Invalid → String
  | missing op key => op.name ++ " requires parameter '" ++ key ++ "'"
  | notReference op key => op.name ++ " parameter '" ++ key ++ "' is not a value reference"
  | unreadable op key => op.name ++ " parameter '" ++ key ++ "'"
  | wrongKind op kind => op.name ++ " is not " ++ kind ++ " node"
  | noSplits => "i_split_test requires at least one split"
  | badShares => "i_split_test shares must be non-negative numbers"
  | clampOrder min max => "ops_clamp min " ++ text min ++ " exceeds max " ++ text max
  | randomSpan min max =>
    "ops_random needs finite bounds with a finite span, got [" ++ text min ++ ", " ++ text max ++
      "]"
  | randomOrder min max => "ops_random min " ++ text min ++ " exceeds max " ++ text max
  | randomNoInteger min max =>
    "ops_random has no integer in [" ++ text min ++ ", " ++ text max ++ "]"
  | eventData => "act_send_event customData must be an object"
  | statKind op stat kind => op.name ++ " needs a number stat, '" ++ stat ++ "' is " ++ kind
  | callDepth trigger limit =>
    "custom flow '" ++ trigger ++ "' exceeds max call depth " ++ toString limit
  | note text => text
where
  text (x : Float) : String := Decimal.Layout.message.write x

end Invalid

/-- What a node looked for and did not find. -/
inductive Missing
  | localVariable (name : String)
  | contextualVariable (id : String)
  | offer (id : String)
  | statTemplate (id : String)
  | cachedMedia (name : String)
  | configSlot (config slot : String)
  | carriedOffer
  | carriedConfig
  | note (text : String)
  deriving DecidableEq

namespace Missing

def message : Missing → String
  | localVariable name => "local variable '" ++ name ++ "'"
  | contextualVariable id => "contextual variable '" ++ id ++ "'"
  | offer id => "offer '" ++ id ++ "'"
  | statTemplate id => "stat template '" ++ id ++ "'"
  | cachedMedia name => "cached media '" ++ name ++ "'"
  | configSlot config slot => "config '" ++ config ++ "' has no slot '" ++ slot ++ "'"
  | carriedOffer => "no offer in this run"
  | carriedConfig => "no entity config in this run"
  | note text => text

end Missing

/-- Why a node fails. -/
inductive NodeError
  | validation (cause : Invalid)
  | coercion (value target : String)
  | lookup (cause : Missing)
  | unsafeCode (summary : String)
  | timeout (ms : Nat)
  | script (text : String)
  | backendSync (text : String)
  | serialization (text : String)
  deriving DecidableEq

namespace NodeError

/-- A name that does not change with the wording. -/
def code : NodeError → String
  | validation _ => "validation_error"
  | coercion .. => "type_coercion_error"
  | lookup _ => "lookup_error"
  | unsafeCode _ => "unsafe_code"
  | timeout _ => "timeout"
  | script _ => "script_error"
  | backendSync _ => "backend_sync_error"
  | serialization _ => "serialization_error"

def message : NodeError → String
  | validation cause => "Validation error: " ++ cause.message
  | coercion value target => "Cannot coerce " ++ value ++ " to " ++ target
  | lookup cause => "Lookup error: " ++ cause.message
  | unsafeCode summary => "Unsafe code rejected: " ++ summary
  | timeout ms => "Timeout: script exceeded " ++ toString ms ++ " ms"
  | script text => "Script error: " ++ text
  | backendSync text => "Backend sync error: " ++ text
  | serialization text => "Serialization error: " ++ text

end NodeError

/-- Why a document of flows or settings is refused. -/
inductive FlowError
  | parse (text : String)
  | notFound (id : String)
  | config (text : String)
  | node (error : NodeError)
  deriving DecidableEq

def FlowError.message : FlowError → String
  | parse text => "Flow parse error: " ++ text
  | notFound id => "Flow not found: " ++ id
  | config text => "Config error: " ++ text
  | node error => "Node error: " ++ error.message

end FlowTree
