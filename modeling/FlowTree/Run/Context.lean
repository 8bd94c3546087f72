import FlowTree.Value.Variables
import FlowTree.World.EntityConfig
import FlowTree.World.Offer

/-!
# Contexts

The state of a single run of a flow. Two runs share no context, and a context goes back to its
initial state before another run gets it.
-/

namespace FlowTree

/-- The objects of the game that a run may change and hands back. -/
structure Carry where
  entityConfig : Option EntityConfig := none
  offer : Option Offer := none
  eventData : Option Fields := none
  deriving DecidableEq

structure Context where
  flowId : String := ""
  vars : Variables := {}
  /-- Whether the run is over before its flow is. -/
  stopped : Bool := false
  /-- How many calls of custom flows lie around the run: a number of 32 bits, but not the last one,
  which has no next. -/
  callDepth : Nat := 0
  carry : Carry := {}
  deriving DecidableEq

namespace Context

/-- The context with each part in its initial state. -/
def reset (c : Context) : Context :=
  { c with flowId := "", vars := .empty, stopped := false, callDepth := 0, carry := {} }

def isClean (c : Context) : Bool :=
  c.flowId.isEmpty && c.vars.isEmpty && !c.stopped && c.callDepth == 0 && c.carry == {}

theorem reset_eq (c : Context) : c.reset = {} := rfl

theorem isClean_reset (c : Context) : c.reset.isClean = true := rfl

end Context

end FlowTree
