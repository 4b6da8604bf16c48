import TuyaDaemon.Daemon

/-!
# What a daemon may meet

The environment chooses the inputs: a signal at any time, or something that the instruction
at hand waits for. Where a daemon faults in some callbacks only, these alone bring it down:
everything else that it is offered it takes.
-/

namespace TuyaDaemon.Daemon

set_option autoImplicit false

open EventMachine

/-- What the environment goes by: the answers that a program point waits for, and whether the
memory holds a connection. -/
structure Environment (Pc Mem Ask : Type) where
  awaits : Pc → Ask → Prop
  linked : Mem → Bool

variable {Pc Mem Conn Msg Env Ask ε : Type}

/-- The callbacks of an input. -/
def arriving : Input Conn Msg Env Ask → List (Callback Conn Msg)
  | .returned callbacks _ => callbacks
  | _ => []

section
variable (p : Program Pc Mem Conn Msg Env Ask ε) (env : Environment Pc Mem Ask)

/-- What the environment may do next. -/
inductive Offered (s : State Pc Mem) : Input Conn Msg Env Ask → Prop where
  | signal : Offered s .signal
  | test {l : LoopName} {condition : Bool} {enter leave : Pc}
      (hi : p.instr s.pc = .test l condition enter leave) : Offered s .tick
  | sleep {seconds : UInt32} {next : Pc} (hi : p.instr s.pc = .sleep seconds next) :
      Offered s .tick
  | deinit {next : Pc} (hi : p.instr s.pc = .deinit next) : Offered s .tick
  | sdk {c : SdkCall} {next : Int → Pc} {linked : Bool} {ret : Int}
      {callbacks : List (Callback Conn Msg)} (hi : p.instr s.pc = .sdk c next)
      (hl : links (env.linked s.mem) callbacks = some linked) :
      Offered s (.returned callbacks ret)
  | send {next : Bool → Pc} {e : Env} (hi : p.instr s.pc = .send next) : Offered s (.sent e)
  | ask {a : Ask} (ha : env.awaits s.pc a) : Offered s (.answer a)

/-- Inputs that are offered one after the other, for as long as the daemon takes them. -/
def OffersInTurn : State Pc Mem → List (Input Conn Msg Env Ask) → Prop
  | _, [] => True
  | s, i :: is => Offered p env s i ∧
    ∀ t es, step p s i = some (t, es) → OffersInTurn t is

variable {p env} in
theorem OffersInTurn.cons {s t : State Pc Mem} {i : Input Conn Msg Env Ask}
    {is : List (Input Conn Msg Env Ask)} {es : List (Event ε)} (hi : Offered p env s i)
    (hstep : step p s i = some (t, es)) (his : OffersInTurn p env t is) :
    OffersInTurn p env s (i :: is) := by
  refine ⟨hi, fun t' es' hstep' => ?_⟩
  rw [hstep] at hstep'
  cases hstep'
  exact his

/-- A daemon that faults in the callbacks of one kind and nowhere else. -/
structure Endurance where
  fatal : Callback Conn Msg → Prop
  callback : ∀ {m : Mem} {cb : Callback Conn Msg} {linked : Bool},
    cb.link (env.linked m) = some linked →
      ((∃ m' es, p.callback m cb = some (m', es)) ↔ ¬ fatal cb)
  link : ∀ {m m' : Mem} {cb : Callback Conn Msg} {es : List ε},
    p.callback m cb = some (m', es) → cb.link (env.linked m) = some (env.linked m')
  sends : ∀ e m, ∃ r, p.send e m = some r
  answers : ∀ {pc : Pc} {a : Ask}, env.awaits pc a →
    ∃ next, p.instr pc = .ask next ∧ ∀ m, ∃ r, next a m = some r
  asked : ∀ {pc : Pc} {next : Ask → Mem → Option (Pc × Mem × List ε)},
    p.instr pc = .ask next → ∃ a, env.awaits pc a

end

namespace Endurance
variable {p : Program Pc Mem Conn Msg Env Ask ε} {env : Environment Pc Mem Ask}
  (daemon : Endurance p env)

theorem safe_of_callbacks {m m' : Mem} {cbs : List (Callback Conn Msg)} {es : List ε}
    (run : Run p.callback m cbs es m') : ∀ cb ∈ cbs, ¬ daemon.fatal cb := by
  induction run with
  | nil => nofun
  | cons hstep _ ih =>
    rw [List.forall_mem_cons]
    exact ⟨(daemon.callback (daemon.link hstep)).mp ⟨_, _, hstep⟩, ih⟩

include daemon in
/-- Callbacks that come in an order the SDK may choose are handled, if none is fatal. -/
theorem handles_callbacks {m : Mem} {linked : Bool} {cbs : List (Callback Conn Msg)}
    (hl : links (env.linked m) cbs = some linked) (hsafe : ∀ cb ∈ cbs, ¬ daemon.fatal cb) :
    ∃ m' es, exec p.callback m cbs = some (m', es) := by
  induction cbs generalizing m with
  | nil => exact ⟨m, [], rfl⟩
  | cons cb cbs ih =>
    rw [List.forall_mem_cons] at hsafe
    simp only [links] at hl
    split at hl
    · cases hl
    · rename_i l hcb
      obtain ⟨m₁, es₁, hstep⟩ := (daemon.callback hcb).mpr hsafe.1
      have hlink := hcb.symm.trans (daemon.link hstep)
      rw [Option.some.inj hlink] at hl
      obtain ⟨m₂, es₂, hrest⟩ := ih hl hsafe.2
      exact ⟨m₂, es₁ ++ es₂, by simp only [exec, hstep, hrest]⟩

variable {s t : State Pc Mem} {i : Input Conn Msg Env Ask} {es : List (Event ε)}

theorem safe_of_step (h : step p s i = some (t, es)) :
    ∀ cb ∈ arriving i, ¬ daemon.fatal cb := by
  cases transition_of_step h with
  | sdk hi hrun => exact daemon.safe_of_callbacks hrun
  | _ => nofun

theorem takes_step (h : Offered p env s i) (hsafe : ∀ cb ∈ arriving i, ¬ daemon.fatal cb) :
    ∃ t es, step p s i = some (t, es) := by
  cases h with
  | signal => exact ⟨_, _, rfl⟩
  | @test l condition enter leave hi =>
    by_cases hc : (condition && s.keepRunning) = true
    · exact ⟨_, _, by simp only [step, hi, if_pos hc]; rfl⟩
    · exact ⟨_, _, by simp only [step, hi, if_neg hc]; rfl⟩
  | sleep hi => exact ⟨_, _, by simp only [step, hi]; rfl⟩
  | deinit hi => exact ⟨_, _, by simp only [step, hi]; rfl⟩
  | sdk hi hl =>
    obtain ⟨m', es, hrun⟩ := daemon.handles_callbacks hl hsafe
    exact ⟨_, _, by simp only [step, hi, hrun]; rfl⟩
  | @send next e hi =>
    obtain ⟨⟨ok, mem, es⟩, hsend⟩ := daemon.sends e s.mem
    exact ⟨_, _, by simp only [step, hi, hsend]; rfl⟩
  | ask ha =>
    obtain ⟨next, hi, hanswer⟩ := daemon.answers ha
    obtain ⟨⟨pc, mem, es⟩, hr⟩ := hanswer s.mem
    exact ⟨_, _, by simp only [step, hi, hr]; rfl⟩

/-- What is offered is taken, unless a fatal callback is among it. -/
theorem step_iff (h : Offered p env s i) : (∃ t es, step p s i = some (t, es)) ↔
    ∀ cb ∈ arriving i, ¬ daemon.fatal cb :=
  ⟨fun ⟨_, _, hstep⟩ => daemon.safe_of_step hstep, daemon.takes_step h⟩

variable {is : List (Input Conn Msg Env Ask)}

theorem safe_of_run (run : Run (step p) s is es t) :
    ∀ cb ∈ is.flatMap arriving, ¬ daemon.fatal cb := by
  induction run with
  | nil => nofun
  | cons hstep _ ih =>
    rw [List.flatMap_cons, List.forall_mem_append]
    exact ⟨daemon.safe_of_step hstep, ih⟩

end Endurance
end TuyaDaemon.Daemon
