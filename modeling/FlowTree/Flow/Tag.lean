/-!
# Operations

The closed set of operations that a node of a flow can name. A name outside of the set is read as
`Tag.unknown`, an operation that does nothing.
-/

namespace FlowTree

inductive Tag
  | add
  | subtract
  | multiply
  | divide
  | power
  | modulo
  | ceil
  | floor
  | round
  | clamp
  | random
  | setVariable
  | getVariable
  | branch
  | switch
  | splitTest
  | sequence
  | stop
  | segmentAdd
  | segmentRemove
  | statAdd
  | statSubtract
  | statSet
  | applyChange
  | callCustomFlow
  | showOffer
  | sendEvent
  | runCode
  | sessionStart
  | customTrigger
  | offerShown
  | configParamRetrieved
  | itemAdded
  | itemRemoved
  | statChanged
  | segmentEnter
  | segmentExit
  | analyticsEventSend
  | unknown
  deriving DecidableEq, Repr

namespace Tag

/-- All operations but `unknown`. -/
def known : List Tag :=
  [add, subtract, multiply, divide, power, modulo, ceil, floor, round, clamp, random, setVariable,
   getVariable, branch, switch, splitTest, sequence, stop, segmentAdd, segmentRemove, statAdd,
   statSubtract, statSet, applyChange, callCustomFlow, showOffer, sendEvent, runCode, sessionStart,
   customTrigger, offerShown, configParamRetrieved, itemAdded, itemRemoved, statChanged,
   segmentEnter, segmentExit, analyticsEventSend]

/-- The name of an operation in messages. -/
def name : Tag → String
  | add => "ops_add"
  | subtract => "ops_subtract"
  | multiply => "ops_multiply"
  | divide => "ops_divide"
  | power => "ops_power"
  | modulo => "ops_modulo"
  | ceil => "ops_ceil"
  | floor => "ops_floor"
  | round => "ops_round"
  | clamp => "ops_clamp"
  | random => "ops_random"
  | setVariable => "ops_set_variable"
  | getVariable => "ops_get_variable"
  | branch => "i_branch"
  | switch => "i_switch"
  | splitTest => "i_split_test"
  | sequence => "i_sequence"
  | stop => "i_return"
  | segmentAdd => "act_segment_add"
  | segmentRemove => "act_segment_remove"
  | statAdd => "act_stat_add"
  | statSubtract => "act_stat_subtract"
  | statSet => "act_stat_set"
  | applyChange => "act_apply_change"
  | callCustomFlow => "act_call_custom_flow"
  | showOffer => "act_show_offer"
  | sendEvent => "act_send_event"
  | runCode => "act_run_code"
  | sessionStart => "t_session_start"
  | customTrigger => "t_custom"
  | offerShown => "t_offer_shown"
  | configParamRetrieved => "t_config_param_retrieved"
  | itemAdded => "t_item_added"
  | itemRemoved => "t_item_removed"
  | statChanged => "t_stat_changed"
  | segmentEnter => "t_segment_enter"
  | segmentExit => "t_segment_exit"
  | analyticsEventSend => "t_analytics_event_send"
  | unknown => "unknown"

/-- The name that an operation is stored under. -/
def storedName : Tag → String
  | unknown => "Unknown"
  | t => t.name

/-- The operation stored under a name. -/
def ofName (s : String) : Tag :=
  (known.find? fun t => t.name == s).getD unknown

/-- Whether a flow with this operation at its root waits for an event of the game. -/
def isTrigger : Tag → Bool
  | sessionStart | customTrigger | offerShown | configParamRetrieved | itemAdded | itemRemoved
  | statChanged | segmentEnter | segmentExit | analyticsEventSend => true
  | _ => false

end Tag

end FlowTree
