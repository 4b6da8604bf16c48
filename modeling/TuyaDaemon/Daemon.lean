import TuyaDaemon.EventMachine
import TuyaDaemon.Tuyalink

/-!
# The skeleton of the two daemons

A daemon is a graph of program points with one instruction each. A step runs the
instruction at the current point, or delivers a stop signal: the handler clears
`keep_running` and only the heads of the loops look at it. Inside a call of the SDK
any sequence of callbacks that the state of the connection admits may run.
-/

namespace TuyaDaemon.Daemon

set_option autoImplicit false

open EventMachine

inductive LoopName where
  | retry
  | setup
  | main
  deriving DecidableEq, Repr

inductive SdkCall where
  | connect
  | loop (l : LoopName)
  | disconnect
  deriving DecidableEq, Repr

/-- What can be seen of a run. `own` is for what the code of one daemon does itself. -/
inductive Event (ε : Type) where
  | iteration (l : LoopName)
  | sleep (seconds : UInt32)
  | call (c : SdkCall)
  | returned (c : SdkCall) (ret : Int)
  | periodicSend
  | sent (ok : Bool)
  | deinit
  | own (e : ε)
  deriving DecidableEq, Repr

inductive Instr (Pc Mem Ask ε : Type) where
  /-- A loop head: `while (condition && keep_running == 1)`. -/
  | test (l : LoopName) (condition : Bool) (enter leave : Pc)
  | sleep (seconds : UInt32) (next : Pc)
  | sdk (c : SdkCall) (next : Int → Pc)
  | send (next : Bool → Pc)
  /-- A call that happens once, with the answer it gets. -/
  | ask (next : Ask → Mem → Option (Pc × Mem × List ε))
  | deinit (next : Pc)
  | exit

inductive Input (Conn Msg Env Ask : Type) where
  | signal
  | tick
  | returned (callbacks : List (Callback Conn Msg)) (ret : Int)
  | sent (env : Env)
  | answer (a : Ask)

def Input.isSignal {Conn Msg Env Ask : Type} : Input Conn Msg Env Ask → Bool
  | signal => true
  | _ => false

/-- `callback` runs a handler and `send` is the periodic send; `none` is a fault, which
takes the process down. -/
structure Program (Pc Mem Conn Msg Env Ask ε : Type) where
  instr : Pc → Instr Pc Mem Ask ε
  callback : Step Mem (Callback Conn Msg) ε
  send : Env → Mem → Option (Bool × Mem × List ε)

structure State (Pc Mem : Type) where
  pc : Pc
  keepRunning : Bool
  mem : Mem
  deriving DecidableEq, Repr

/-- What one turn of a main loop meets: the flag at its head, the result of
`tuya_mqtt_loop`, and whether the periodic send succeeded. -/
structure LoopOutcome where
  keepRunning : Bool
  loopResult : Int
  sent : Bool
  deriving DecidableEq, Repr

inductive LoopStatus where
  | head (sendFailCount : UInt32)
  | left (success : Bool)
  deriving DecidableEq, Repr

structure Turn (Conn Msg Env : Type) where
  keepRunning : Bool
  callbacks : List (Callback Conn Msg)
  loopResult : Int
  env : Env

variable {Pc Mem Conn Msg Env Ask ε : Type}

/-- The inputs of a turn. The flag is only looked at in the head, so a signal at any
time since the last head has the effect of one just before this head. -/
def Turn.inputs (t : Turn Conn Msg Env) : List (Input Conn Msg Env Ask) :=
  if !t.keepRunning then [.signal, .tick]
  else if t.loopResult ≠ oprtOk then [.tick, .returned t.callbacks t.loopResult]
  else [.tick, .returned t.callbacks t.loopResult, .tick, .sent t.env]

def step (p : Program Pc Mem Conn Msg Env Ask ε) :
    Step (State Pc Mem) (Input Conn Msg Env Ask) (Event ε)
  | s, .signal => some ({ s with keepRunning := false }, [])
  | s, i =>
    match p.instr s.pc, i with
    | .test l condition enter leave, .tick =>
      if condition && s.keepRunning then some ({ s with pc := enter }, [.iteration l])
      else some ({ s with pc := leave }, [])
    | .sleep seconds next, .tick => some ({ s with pc := next }, [.sleep seconds])
    | .sdk c next, .returned callbacks ret =>
      match exec p.callback s.mem callbacks with
      | none => none
      | some (mem, es) =>
        some ({ s with pc := next ret, mem }, .call c :: es.map .own ++ [.returned c ret])
    | .send next, .sent env =>
      match p.send env s.mem with
      | none => none
      | some (ok, mem, es) =>
        some ({ s with pc := next ok, mem }, .periodicSend :: es.map .own ++ [.sent ok])
    | .ask next, .answer a =>
      match next a s.mem with
      | none => none
      | some (pc, mem, es) => some ({ s with pc, mem }, es.map .own)
    | .deinit next, .tick => some ({ s with pc := next }, [.deinit])
    | _, _ => none

/-- The state after `n` turns of a main loop whose heads `atHead` recognises. -/
def afterTurns (p : Program Pc Mem Conn Msg Env Ask ε) (atHead : Pc → Bool)
    (turns : Nat → Turn Conn Msg Env) (s : State Pc Mem) : Nat → Option (State Pc Mem)
  | 0 => some s
  | n + 1 =>
    match afterTurns p atHead turns s n with
    | none => none
    | some s => if atHead s.pc then (exec (step p) s (turns n).inputs).map (·.1) else some s

/-- Everything that one step can do. -/
inductive Transition (p : Program Pc Mem Conn Msg Env Ask ε) (s : State Pc Mem) :
    Input Conn Msg Env Ask → State Pc Mem → List (Event ε) → Prop where
  | signal : Transition p s .signal { s with keepRunning := false } []
  | enter {l : LoopName} {condition : Bool} {enter leave : Pc}
      (hi : p.instr s.pc = .test l condition enter leave) (hc : condition = true)
      (hk : s.keepRunning = true) :
      Transition p s .tick { s with pc := enter } [.iteration l]
  | leave {l : LoopName} {condition : Bool} {enter leave : Pc}
      (hi : p.instr s.pc = .test l condition enter leave)
      (hc : (condition && s.keepRunning) = false) :
      Transition p s .tick { s with pc := leave } []
  | sleep {seconds : UInt32} {next : Pc} (hi : p.instr s.pc = .sleep seconds next) :
      Transition p s .tick { s with pc := next } [.sleep seconds]
  | sdk {c : SdkCall} {next : Int → Pc} {callbacks : List (Callback Conn Msg)} {ret : Int}
      {mem : Mem} {es : List ε} (hi : p.instr s.pc = .sdk c next)
      (hrun : Run p.callback s.mem callbacks es mem) :
      Transition p s (.returned callbacks ret) { s with pc := next ret, mem }
        (.call c :: es.map .own ++ [.returned c ret])
  | send {next : Bool → Pc} {env : Env} {ok : Bool} {mem : Mem} {es : List ε}
      (hi : p.instr s.pc = .send next) (hsend : p.send env s.mem = some (ok, mem, es)) :
      Transition p s (.sent env) { s with pc := next ok, mem }
        (.periodicSend :: es.map .own ++ [.sent ok])
  | ask {next : Ask → Mem → Option (Pc × Mem × List ε)} {a : Ask} {pc : Pc} {mem : Mem}
      {es : List ε} (hi : p.instr s.pc = .ask next) (hask : next a s.mem = some (pc, mem, es)) :
      Transition p s (.answer a) { s with pc, mem } (es.map .own)
  | deinit {next : Pc} (hi : p.instr s.pc = .deinit next) :
      Transition p s .tick { s with pc := next } [.deinit]

/-- The weakest precondition of an instruction: wherever it leads from `s` and whatever it
does on the way, `Q` holds of the two. -/
def Instr.Ensures (p : Program Pc Mem Conn Msg Env Ask ε) (s : State Pc Mem)
    (Q : State Pc Mem → List (Event ε) → Prop) : Instr Pc Mem Ask ε → Prop
  | .test l condition enter leave =>
    (condition = true → s.keepRunning = true → Q { s with pc := enter } [.iteration l]) ∧
      ((condition && s.keepRunning) = false → Q { s with pc := leave } [])
  | .sleep seconds next => Q { s with pc := next } [.sleep seconds]
  | .sdk c next => ∀ callbacks ret mem es, Run p.callback s.mem callbacks es mem →
    Q { s with pc := next ret, mem } (.call c :: es.map .own ++ [.returned c ret])
  | .send next => ∀ env ok mem es, p.send env s.mem = some (ok, mem, es) →
    Q { s with pc := next ok, mem } (.periodicSend :: es.map .own ++ [.sent ok])
  | .ask next => ∀ a pc mem es, next a s.mem = some (pc, mem, es) →
    Q { s with pc, mem } (es.map .own)
  | .deinit next => Q { s with pc := next } [.deinit]
  | .exit => True

section
variable {p : Program Pc Mem Conn Msg Env Ask ε} {s t : State Pc Mem}
  {i : Input Conn Msg Env Ask} {es : List (Event ε)}

theorem transition_of_instr (hi : i.isSignal = false) (h : step p s i = some (t, es)) :
    Transition p s i t es := by
  cases hinstr : p.instr s.pc with
  | test l condition enter leave =>
    cases i with
    | tick =>
      simp only [step, hinstr] at h
      split at h
      · rename_i hc
        obtain ⟨rfl, rfl⟩ := Prod.mk.inj (Option.some.inj h)
        obtain ⟨hc, hk⟩ := Bool.and_eq_true_iff.mp hc
        exact .enter hinstr hc hk
      · rename_i hc
        obtain ⟨rfl, rfl⟩ := Prod.mk.inj (Option.some.inj h)
        exact .leave hinstr (Bool.not_eq_true _ ▸ hc)
    | signal => cases hi
    | _ => simp [step, hinstr] at h
  | sleep seconds next =>
    cases i with
    | tick =>
      simp only [step, hinstr] at h
      obtain ⟨rfl, rfl⟩ := Prod.mk.inj (Option.some.inj h)
      exact .sleep hinstr
    | signal => cases hi
    | _ => simp [step, hinstr] at h
  | sdk c next =>
    cases i with
    | returned callbacks ret =>
      simp only [step, hinstr] at h
      split at h
      · cases h
      · rename_i hexec
        obtain ⟨rfl, rfl⟩ := Prod.mk.inj (Option.some.inj h)
        exact .sdk hinstr (run_of_exec hexec)
    | signal => cases hi
    | _ => simp [step, hinstr] at h
  | send next =>
    cases i with
    | sent env =>
      simp only [step, hinstr] at h
      split at h
      · cases h
      · rename_i hsend
        obtain ⟨rfl, rfl⟩ := Prod.mk.inj (Option.some.inj h)
        exact .send hinstr hsend
    | signal => cases hi
    | _ => simp [step, hinstr] at h
  | ask next =>
    cases i with
    | answer a =>
      simp only [step, hinstr] at h
      split at h
      · cases h
      · rename_i hask
        obtain ⟨rfl, rfl⟩ := Prod.mk.inj (Option.some.inj h)
        exact .ask hinstr hask
    | signal => cases hi
    | _ => simp [step, hinstr] at h
  | deinit next =>
    cases i with
    | tick =>
      simp only [step, hinstr] at h
      obtain ⟨rfl, rfl⟩ := Prod.mk.inj (Option.some.inj h)
      exact .deinit hinstr
    | signal => cases hi
    | _ => simp [step, hinstr] at h
  | exit => cases i <;> simp_all [step, Input.isSignal]

theorem transition_of_step (h : step p s i = some (t, es)) : Transition p s i t es := by
  cases i with
  | signal =>
    obtain ⟨rfl, rfl⟩ := Prod.mk.inj (Option.some.inj h)
    exact .signal
  | _ => exact transition_of_instr rfl h

/-- A step is a signal or runs the instruction at hand. -/
theorem step_ensures {Q : State Pc Mem → List (Event ε) → Prop} (h : step p s i = some (t, es))
    (hsignal : Q { s with keepRunning := false } []) (hinstr : (p.instr s.pc).Ensures p s Q) :
    Q t es := by
  cases transition_of_step h with
  | signal => exact hsignal
  | enter hi hc hk =>
    rw [hi] at hinstr
    exact hinstr.1 hc hk
  | leave hi hc =>
    rw [hi] at hinstr
    exact hinstr.2 hc
  | sleep hi =>
    rw [hi] at hinstr
    exact hinstr
  | sdk hi hrun =>
    rw [hi] at hinstr
    exact hinstr _ _ _ _ hrun
  | send hi hsend =>
    rw [hi] at hinstr
    exact hinstr _ _ _ _ hsend
  | ask hi hask =>
    rw [hi] at hinstr
    exact hinstr _ _ _ _ hask
  | deinit hi =>
    rw [hi] at hinstr
    exact hinstr

end
end TuyaDaemon.Daemon
