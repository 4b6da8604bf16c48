import TuyaDaemon.Daemon
import TuyaDaemon.Standalone.Args
import TuyaDaemon.Standalone.Connection

/-!
# main.c of the stand-alone daemon

`instr` is the control flow of `main` with `init_tuya` and `connect_to_tuya` in line. Locals
that only one loop uses are arguments of its program points.
-/

namespace TuyaDaemon.Standalone

set_option autoImplicit false

open Daemon

def exitSuccess : Int := 0
def exitFailure : Int := 1

/-- What ends `argp_parse` before `parse_opt` has seen every argument. -/
inductive ArgpStop where
  | help
  | usage
  | version
  | badOption
  | noMemory
  deriving DecidableEq, Repr

def argpErrExitStatus : Int := 64

inductive Pc where
  | argpParse
  | becomeDaemon (arguments : Args)
  | mqttInit (arguments : Args)
  | connect
  | retryHead (i : Nat) (sleepSeconds : UInt32) (ret : Int)
  | retrySleep (i : Nat) (sleepSeconds : UInt32)
  | retryConnect (i : Nat) (sleepSeconds : UInt32)
  | setupHead (i : Nat)
  | setupLoop (i : Nat)
  | mainHead (sendFailCount : UInt32)
  | mainLoop (sendFailCount : UInt32)
  | mainSleep (sendFailCount : UInt32)
  | mainSend (sendFailCount : UInt32)
  | cleanup (retVal : Int)
  | mqttDeinit (retVal : Int)
  | freeFormat (retVal : Int)
  | exited (retVal : Int)
  | argpExited (status : Int)
  deriving DecidableEq, Repr

/-- The command line, and the answers to the calls that `main` makes once. -/
inductive Ask where
  | argv (argv : List ArgvItem)
  | argpStop (stop : ArgpStop)
  | becomeDaemon (ret : Int)
  | mqttInit (ret : Int)
  | cleanup
  deriving DecidableEq, Repr

abbrev Outcome := Option (Pc × Memory × List Effect)

/-- The flags are 0, so `argp_parse` ends the process itself after a help text and after every
error but one of its own set-up, which it returns to `main`. -/
def stopArgp : ArgpStop → Pc
  | .help => .argpExited 0
  | .usage => .argpExited 0
  | .version => .argpExited 0
  | .badOption => .argpExited argpErrExitStatus
  | .noMemory => .exited exitFailure

def readArguments : Ask → Memory → Outcome
  | .argv argv, m =>
    match parseArguments argv with
    | none => some (.argpExited argpErrExitStatus, m, [])
    | some arguments =>
      some (if arguments.becomeDaemon then .becomeDaemon arguments else .mqttInit arguments, m, [])
  | .argpStop stop, m => some (stopArgp stop, m, [])
  | _, _ => none

def checkDaemon (arguments : Args) : Ask → Memory → Outcome
  | .becomeDaemon ret, m =>
    if ret ≠ 0 then some (.exited exitFailure, m, []) else some (.mqttInit arguments, m, [])
  | _, _ => none

/-- `init_tuya`; when it fails `main` returns at once. -/
def initTuya (arguments : Args) : Ask → Memory → Outcome
  | .mqttInit ret, m =>
    let config := tuyaMqttConfig arguments.deviceId arguments.deviceSecret
    if ret ≠ oprtOk then some (.exited exitFailure, m, [.mqttInit config ret])
    else some (.connect, m, [.mqttInit config ret])
  | _, _ => none

def freeOnExit (retVal : Int) : Ask → Memory → Outcome
  | .cleanup, m => some (.exited retVal, m, freeDateTimeFormat m.format)
  | _, _ => none

def instr : Pc → Instr Pc Memory Ask Effect
  | .argpParse => .ask readArguments
  | .becomeDaemon arguments => .ask (checkDaemon arguments)
  | .mqttInit arguments => .ask (initTuya arguments)
  -- connect_to_tuya
  | .connect => .sdk .connect fun ret => .retryHead 0 2 ret
  | .retryHead i sleepSeconds ret =>
    .test .retry (i < 10 && ret ≠ oprtOk) (.retrySleep i sleepSeconds)
      (if ret ≠ oprtOk then .cleanup exitFailure else .setupHead 0)
  | .retrySleep i sleepSeconds => .sleep sleepSeconds (.retryConnect i (sleepSeconds * 2))
  | .retryConnect i sleepSeconds => .sdk .connect fun ret => .retryHead (i + 1) sleepSeconds ret
  | .setupHead i => .test .setup (i < 5) (.setupLoop i) (.mainHead 0)
  | .setupLoop i => .sdk (.loop .setup) fun ret =>
    if ret ≠ oprtOk then .cleanup exitFailure else .setupHead (i + 1)
  -- the main loop
  | .mainHead sendFailCount =>
    .test .main true (.mainLoop sendFailCount) (.cleanup exitSuccess)
  | .mainLoop sendFailCount => .sdk (.loop .main) fun ret =>
    if ret ≠ oprtOk then .cleanup exitFailure else .mainSleep sendFailCount
  | .mainSleep sendFailCount => .sleep 10 (.mainSend sendFailCount)
  | .mainSend sendFailCount => .send fun ok =>
    if !ok then
      if sendFailCount + 1 = 10 then .cleanup exitFailure else .mainHead (sendFailCount + 1)
    else .mainHead 0
  -- the label cleanup
  | .cleanup retVal => .sdk .disconnect fun _ => .mqttDeinit retVal
  | .mqttDeinit retVal => .deinit (.freeFormat retVal)
  | .freeFormat retVal => .ask (freeOnExit retVal)
  | .exited _ => .exit
  | .argpExited _ => .exit

/-! What the calls of `main` can lead to. -/

section Ask
variable {a : Ask} {m m' : Memory} {pc : Pc} {es : List Effect}

theorem stopArgp_cases (stop : ArgpStop) :
    stopArgp stop = .exited exitFailure ∨ ∃ status, stopArgp stop = .argpExited status := by
  cases stop with
  | noMemory => exact Or.inl rfl
  | _ => exact Or.inr ⟨_, rfl⟩

theorem readArguments_cases (h : readArguments a m = some (pc, m', es)) :
    (pc = .exited exitFailure ∨ (∃ status, pc = .argpExited status) ∨
      ∃ arguments, pc = .becomeDaemon arguments ∨ pc = .mqttInit arguments) ∧
      m' = m ∧ es = [] := by
  cases a with
  | argv argv =>
    simp only [readArguments] at h
    split at h
    · cases h
      exact ⟨Or.inr (Or.inl ⟨_, rfl⟩), rfl, rfl⟩
    · rename_i arguments _
      cases h
      refine ⟨Or.inr (Or.inr ⟨arguments, ?_⟩), rfl, rfl⟩
      cases arguments.becomeDaemon with
      | true => exact Or.inl rfl
      | false => exact Or.inr rfl
  | argpStop stop =>
    cases h
    refine ⟨?_, rfl, rfl⟩
    rcases stopArgp_cases stop with hstop | hstop
    · exact Or.inl hstop
    · exact Or.inr (Or.inl hstop)
  | _ => cases h

theorem checkDaemon_cases {arguments : Args} (h : checkDaemon arguments a m = some (pc, m', es)) :
    (pc = .exited exitFailure ∨ pc = .mqttInit arguments) ∧ m' = m ∧ es = [] := by
  cases a with
  | becomeDaemon ret =>
    simp only [checkDaemon] at h
    split at h
    · cases h
      exact ⟨Or.inl rfl, rfl, rfl⟩
    · cases h
      exact ⟨Or.inr rfl, rfl, rfl⟩
  | _ => cases h

theorem initTuya_cases {arguments : Args} (h : initTuya arguments a m = some (pc, m', es)) :
    (pc = .exited exitFailure ∨ pc = .connect) ∧ m' = m ∧
      ∃ config ret, es = [.mqttInit config ret] := by
  cases a with
  | mqttInit ret =>
    simp only [initTuya] at h
    split at h
    · cases h
      exact ⟨Or.inl rfl, rfl, _, _, rfl⟩
    · cases h
      exact ⟨Or.inr rfl, rfl, _, _, rfl⟩
  | _ => cases h

theorem freeOnExit_cases {retVal : Int} (h : freeOnExit retVal a m = some (pc, m', es)) :
    pc = .exited retVal ∧ m' = m ∧ es = freeDateTimeFormat m.format := by
  cases a with
  | cleanup =>
    cases h
    exact ⟨rfl, rfl, rfl⟩
  | _ => cases h

end Ask

/-- `send_current_time(&mqtt_context)`, called from the main loop. -/
def periodicSend {Tm : Type} (lib : Strftime Tm) (env : TimeEnv Tm) (m : Memory) :
    Option (Bool × Memory × List Effect) :=
  match sendCurrentTime lib env m.format.format.text with
  | .error _ => none
  | .ok (ret, es) => some (ret == 0, m, es)

def program {Tm : Type} (lib : Strftime Tm) :
    Program Pc Memory (TimeEnv Tm) Decoder (TimeEnv Tm) Ask Effect where
  instr := instr
  callback := callback lib
  send := periodicSend lib

/-- `main` at its first call, after the signal handler has been set up. -/
def start : State Pc Memory := ⟨.argpParse, true, ⟨false, initialFormat, 0⟩⟩

def mainLoopTurn (o : LoopOutcome) (sendFailCount : UInt32) : LoopStatus :=
  if !o.keepRunning then .left true
  else if o.loopResult ≠ oprtOk then .left false
  else if !o.sent then
    let sendFailCount := sendFailCount + 1
    if sendFailCount = 10 then .left false else .head sendFailCount
  else .head 0

def mainLoop (outcomes : Nat → LoopOutcome) : Nat → LoopStatus
  | 0 => .head 0
  | n + 1 =>
    match mainLoop outcomes n with
    | .head sendFailCount => mainLoopTurn (outcomes n) sendFailCount
    | .left success => .left success

def statusPc : LoopStatus → Pc
  | .head sendFailCount => .mainHead sendFailCount
  | .left true => .cleanup exitSuccess
  | .left false => .cleanup exitFailure

/-- The steps of one turn take the program where `mainLoopTurn` says. -/
theorem exec_turn {Tm : Type} (lib : Strftime Tm)
    (t : Turn (TimeEnv Tm) Decoder (TimeEnv Tm)) (sendFailCount : UInt32)
    {m m' : Memory} {es es' : List Effect} {ret : Int}
    (h : EventMachine.exec (callback lib) m t.callbacks = some (m', es))
    (hsend : sendCurrentTime lib t.env m'.format.format.text = .ok (ret, es')) :
    (EventMachine.exec (step (program lib)) ⟨.mainHead sendFailCount, true, m⟩ t.inputs).map
        (·.1) =
      some ⟨statusPc (mainLoopTurn ⟨t.keepRunning, t.loopResult, ret == 0⟩ sendFailCount),
        t.keepRunning, if t.keepRunning then m' else m⟩ := by
  cases hk : t.keepRunning with
  | false => simp [Turn.inputs, hk, EventMachine.exec, step, program, instr, mainLoopTurn, statusPc]
  | true =>
    by_cases hl : t.loopResult = oprtOk
    · cases hs : ret == 0 with
      | false =>
        by_cases hc : sendFailCount + 1 = 10 <;>
          simp [Turn.inputs, hk, hl, EventMachine.exec, step, program, instr, h, periodicSend,
            hsend, hs, mainLoopTurn, hc, statusPc]
      | true =>
        simp [Turn.inputs, hk, hl, EventMachine.exec, step, program, instr, h, periodicSend, hsend,
          hs, mainLoopTurn, statusPc]
    · simp [Turn.inputs, hk, hl, EventMachine.exec, step, program, instr, h, mainLoopTurn, statusPc]

end TuyaDaemon.Standalone
