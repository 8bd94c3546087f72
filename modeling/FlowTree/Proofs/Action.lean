import FlowTree.Engine.Visit

/-!
# Running actions

An action on a run gives a value or fails, with the run that it leaves in either case. Here are the
rules by which the actions that operations are made of run, and the changes of a run that they make.
-/

namespace FlowTree

namespace Action
variable {α β : Type} {r : Run}

theorem bind_run (a : Action α) (f : α → Action β) (r : Run) :
    (a >>= f) r = match a r with
      | .ok v r => f v r
      | .error err r => .error err r := by
  simp only [bind, EStateM.bind]
  cases a r <;> rfl

@[simp]
theorem pure_run (v : α) : (pure v : Action α) r = .ok v r := rfl

@[simp]
theorem lift_ok (v : α) : (liftM (Except.ok v : Except NodeError α) : Action α) r = .ok v r := rfl

@[simp]
theorem lift_error (err : NodeError) :
    (liftM (Except.error err : Except NodeError α) : Action α) r = .error err r := rfl

@[simp]
theorem get_run : (get : Action Run) r = .ok r r := rfl

@[simp]
theorem modify_run (f : Run → Run) : (modify f : Action PUnit) r = .ok () (f r) := rfl

@[simp]
theorem context_run : context r = .ok r.ctx r := rfl

@[simp]
theorem vars_run : vars r = .ok r.ctx.vars r := rfl

@[simp]
theorem player_run : player r = .ok r.world.player r := rfl

/-- The run that an action leaves, with a value or with a failure. -/
def resultRun : EStateM.Result NodeError Run α → Run
  | .ok _ r | .error _ r => r

end Action

/-! ### Changes of a run -/

namespace Run

def withPlayer (r : Run) (p : Player) : Run :=
  { r with world := { r.world with player := p } }

def withRandom (r : Run) (source : RandomSource) : Run :=
  { r with world := { r.world with random := source } }

def withSandbox (r : Run) (sandbox : Script.Sandbox) : Run :=
  { r with world := { r.world with sandbox } }

def withCarry (r : Run) (c : Carry) : Run :=
  { r with ctx := { r.ctx with carry := c } }

def setContextual (r : Run) (id : String) (v : Json) : Run :=
  { r with ctx := { r.ctx with vars := r.ctx.vars.setContextual id v } }

def setLocal (r : Run) (name : String) (v : Json) : Run :=
  { r with ctx := { r.ctx with vars := r.ctx.vars.setLocal name v } }

/-- The run after its flow handed an action over to the backend. -/
def handOver (r : Run) (e : Engine) (action : String) (payload : Json) : Run :=
  { r with world := { r.world with outbox := r.world.outbox ++
    [{ flow := r.ctx.flowId, action := .make e.settings.backend action payload }] } }

def present (r : Run) (offer : String) : Run :=
  { r with world := { r.world with shown := r.world.shown ++ [offer] } }

def warn (r : Run) (ws : List Warning) : Run :=
  { r with world := { r.world with log := r.world.log ++ ws } }

theorem warn_warn (r : Run) (ws ws' : List Warning) :
    (r.warn ws).warn ws' = r.warn (ws ++ ws') := by
  simp [warn]

/-- The run after a change of the player's segments: the context follows the player, and the change
is reported. -/
def moveSegments (r : Run) (e : Engine) (action id : String) (p : Player) : Run :=
  ((r.withPlayer p).setContextual Engine.segmentVariable (.strings p.segments)).handOver e action
    (.obj [("segmentId", .str id)])

end Run

end FlowTree
