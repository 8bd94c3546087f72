import FlowTree.Proofs.Invariant

/-!
# Contexts of runs

The contexts that wait in the pool are in their initial state: the pool starts so, and resets each
context that comes back. So a run takes nothing over from the runs before it.
-/

namespace FlowTree

namespace Pool
variable {p : Pool}

/-- All contexts that wait in the pool are in their initial state. -/
def Clean (p : Pool) : Prop :=
  ∀ c ∈ p.idle, c = {}

theorem clean_start (prewarm maxIdle : Nat) : (start prewarm maxIdle).Clean :=
  fun _ hc => List.eq_of_mem_replicate hc

theorem Clean.checkout_fst (h : p.Clean) : p.checkout.1 = {} := by
  unfold checkout
  split
  · rename_i c cs hidle
    exact h c (hidle ▸ List.mem_cons_self)
  · rfl

theorem Clean.checkout_snd (h : p.Clean) : p.checkout.2.Clean := by
  unfold checkout
  split
  · rename_i c cs hidle
    exact fun d hd => h d (hidle ▸ List.mem_cons_of_mem c hd)
  · exact h

theorem Clean.release (h : p.Clean) (c : Context) : (p.release c).Clean := by
  unfold Pool.release
  split
  · intro d hd
    rcases List.mem_cons.1 hd with rfl | hd
    · exact c.reset_eq
    · exact h d hd
  · exact h

end Pool

namespace Engine
variable {e : Engine}

theorem enter_withPool (w : World) (f : Flow) (pool : Pool) :
    enter { w with pool } f = { enter w f with pool } := by
  unfold enter
  split <;> rfl

/-- A run starts with its first visit to come. -/
theorem begin_stopped (f : Flow) (inv : Invocation) {w : World} (hw : w.pool.Clean) :
    (e.begin f inv w).ctx.stopped = false := by
  show w.pool.checkout.1.stopped = false
  rw [hw.checkout_fst]

theorem after_pool {call : Caller} (s : Step) (op : s.node.op ≠ .callCustomFlow) :
    (s.after e call).world.pool = s.run.world.pool := by
  obtain ⟨result, ho, ⟨log, hworld⟩, -⟩ := s.after_cases e call
  rw [hworld]
  cases ho <;> first | rfl | exact absurd ‹_› op

/-- Runs leave the pool as clean as they find it, however they end. -/
theorem keeps_clean (e : Engine) : e.Keeps fun w => w.pool.Clean where
  warn _ _ hw := hw
  after call s op hs := by rwa [after_pool s op]
  begin f inv w hw := by
    show (enter _ f).pool.Clean
    rw [enter_withPool]
    exact hw.checkout_snd
  finish f r hr := Pool.Clean.release hr _

theorem clean_start (e : Engine) (player : Player) (random : RandomSource)
    (generator : Generator) : (e.start player random generator).pool.Clean :=
  Pool.clean_start _ _

end Engine

end FlowTree
