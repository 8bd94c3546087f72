import FlowTree.Run.Context

/-!
# The pool of contexts

Runs take their contexts from a pool and give them back. The pool makes a new one when it has none,
and keeps no more than it is meant to.
-/

namespace FlowTree

/-- Idle contexts, and how many were made, used again and dropped. The numbers have no bound here:
64 bits hold more than any pool lives to see. -/
structure Pool where
  maxIdle : Nat
  /-- The context that came back last is the first. -/
  idle : List Context
  created : Nat
  reused : Nat := 0
  dropped : Nat := 0

namespace Pool

/-- A pool with so many contexts made beforehand, as far as it may keep them. -/
def start (prewarm maxIdle : Nat) : Pool where
  maxIdle
  idle := List.replicate (min prewarm maxIdle) {}
  created := min prewarm maxIdle

def checkout (p : Pool) : Context × Pool :=
  match p.idle with
  | c :: cs => (c, { p with idle := cs, reused := p.reused + 1 })
  | [] => ({}, { p with created := p.created + 1 })

def release (p : Pool) (c : Context) : Pool :=
  if p.idle.length < p.maxIdle then { p with idle := c.reset :: p.idle }
  else { p with dropped := p.dropped + 1 }

end Pool

end FlowTree
