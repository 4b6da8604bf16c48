import TuyaDaemon.Daemon
import TuyaDaemon.Openwrt.Connection

/-!
# main.c of the OpenWrt daemon, with init_connections and connect_to_tuya

`instr` is the control flow of `main` with the functions it calls in line. Locals that
only one function uses are arguments of its program points.
-/

namespace TuyaDaemon.Openwrt

set_option autoImplicit false

open Daemon

def exitSuccess : Int := 0
def exitFailure : Int := 1

inductive Pc where
  | uciAlloc
  | options
  | mqttInit (o : Options)
  | ubusConnect
  | connect
  | retryHead (i : Nat) (sleepSeconds : UInt32) (ret : Int)
  | retrySleep (i : Nat) (sleepSeconds : UInt32)
  | retryConnect (i : Nat) (sleepSeconds : UInt32)
  | setupConnected
  | setupHead
  | setupLoop
  | mainHead (sendFailCount : UInt32)
  | mainLoop (sendFailCount : UInt32)
  | mainSleep (sendFailCount : UInt32)
  | mainSend (sendFailCount : UInt32)
  | cleanupMqtt (retVal : Int)
  | mqttDeinit (retVal : Int)
  | cleanupEnd (retVal : Int)
  | exited (retVal : Int)
  deriving DecidableEq, Repr

/-- The answers to the calls that `main` makes once, and to `tuya_mqtt_connected`. -/
inductive Ask where
  | uciAllocContext (ctx : Option UciContext)
  | options (lookups : Nat → UciLookup) (ptr : UciPtr)
  | mqttInit (ret : Int)
  | ubusConnect (ctx : Option UbusContext)
  | mqttConnected (answer : Bool)
  | cleanup

abbrev Outcome := Option (Pc × Memory × List Effect)

def allocUci : Ask → Memory → Outcome
  | .uciAllocContext none, m =>
    some (.cleanupEnd exitFailure, { m with uciCtx := none }, [.uciAllocContext none])
  | .uciAllocContext (some ctx), m =>
    some (.options, { m with uciCtx := some ctx }, [.uciAllocContext (some ctx)])
  | _, _ => none

def loadOptions : Ask → Memory → Outcome
  | .options lookups ptr, m =>
    match readOptions lookups ptr with
    | .error _ => none
    | .ok none => some (.cleanupEnd exitFailure, m, [])
    | .ok (some o) => some (.mqttInit o, m, [])
  | _, _ => none

/-- `init_connections` up to `tuya_mqtt_init`; on failure it returns -1. -/
def initMqtt (o : Options) : Ask → Memory → Outcome
  | .mqttInit ret, m =>
    let config := tuyaMqttConfig (some o.deviceId) (some o.deviceSecret)
    if ret ≠ oprtOk then some (.cleanupMqtt (-1), m, [.mqttInit config ret])
    else some (.ubusConnect, m, [.mqttInit config ret])
  | _, _ => none

/-- The rest of `init_connections`; on failure it returns -2. -/
def connectUbus : Ask → Memory → Outcome
  | .ubusConnect none, m =>
    some (.cleanupMqtt (-2), { m with ubusCtx := none }, [.ubusConnect none])
  | .ubusConnect (some ctx), m =>
    some (.connect, { m with ubusCtx := some ctx, userData := some ctx },
      [.ubusConnect (some ctx)])
  | _, _ => none

/-- `while (!tuya_mqtt_connected(context) && ...)`. -/
def askConnected : Ask → Memory → Outcome
  | .mqttConnected answer, m =>
    some (if answer then .mainHead 0 else .setupHead, m, [.mqttConnected answer])
  | _, _ => none

def cleanUp (retVal : Int) : Ask → Memory → Outcome
  | .cleanup, m =>
    some (.exited retVal, m, optionsConst.map .freeOptionName ++ [.uciFreeContext m.uciCtx])
  | _, _ => none

def instr : Pc → Instr Pc Memory Ask Effect
  | .uciAlloc => .ask allocUci
  | .options => .ask loadOptions
  | .mqttInit o => .ask (initMqtt o)
  | .ubusConnect => .ask connectUbus
  -- connect_to_tuya
  | .connect => .sdk .connect fun ret => .retryHead 0 2 ret
  | .retryHead i sleepSeconds ret =>
    .test .retry (ret ≠ oprtOk && i < 10) (.retrySleep i sleepSeconds)
      (if ret ≠ oprtOk then .cleanupMqtt (-1) else .setupConnected)
  | .retrySleep i sleepSeconds => .sleep sleepSeconds (.retryConnect i (sleepSeconds * 2))
  | .retryConnect i sleepSeconds => .sdk .connect fun ret => .retryHead (i + 1) sleepSeconds ret
  | .setupConnected => .ask askConnected
  | .setupHead => .test .setup true .setupLoop (.mainHead 0)
  | .setupLoop => .sdk (.loop .setup) fun ret =>
    if ret ≠ oprtOk then .cleanupMqtt (-1) else .setupConnected
  -- main_loop
  | .mainHead sendFailCount =>
    .test .main true (.mainLoop sendFailCount) (.cleanupMqtt exitSuccess)
  | .mainLoop sendFailCount => .sdk (.loop .main) fun ret =>
    if ret ≠ oprtOk then .cleanupMqtt exitFailure else .mainSleep sendFailCount
  | .mainSleep sendFailCount => .sleep 10 (.mainSend sendFailCount)
  | .mainSend sendFailCount => .send fun ok =>
    if !ok then
      if sendFailCount + 1 = 10 then .cleanupMqtt exitFailure else .mainHead (sendFailCount + 1)
    else .mainHead 0
  -- the labels cleanup_mqtt and cleanup_end of main
  | .cleanupMqtt retVal => .sdk .disconnect fun _ => .mqttDeinit retVal
  | .mqttDeinit retVal => .deinit (.cleanupEnd retVal)
  | .cleanupEnd retVal => .ask (cleanUp retVal)
  | .exited _ => .exit

/-! What the calls of `main` can lead to. -/

section Ask
variable {a : Ask} {m m' : Memory} {pc : Pc} {es : List Effect}

theorem allocUci_cases (h : allocUci a m = some (pc, m', es)) :
    (pc = .cleanupEnd exitFailure ∧ m' = { m with uciCtx := none } ∧
        es = [.uciAllocContext none]) ∨
      ∃ ctx, pc = .options ∧ m' = { m with uciCtx := some ctx } ∧
        es = [.uciAllocContext (some ctx)] := by
  cases a with
  | uciAllocContext ctx =>
    cases ctx with
    | none =>
      cases h
      exact Or.inl ⟨rfl, rfl, rfl⟩
    | some ctx =>
      cases h
      exact Or.inr ⟨ctx, rfl, rfl, rfl⟩
  | _ => cases h

theorem loadOptions_cases (h : loadOptions a m = some (pc, m', es)) :
    (pc = .cleanupEnd exitFailure ∨ ∃ o, pc = .mqttInit o) ∧ m' = m ∧ es = [] := by
  cases a with
  | options lookups ptr =>
    simp only [loadOptions] at h
    split at h
    · cases h
    · cases h
      exact ⟨Or.inl rfl, rfl, rfl⟩
    · cases h
      exact ⟨Or.inr ⟨_, rfl⟩, rfl, rfl⟩
  | _ => cases h

theorem initMqtt_cases {o : Options} (h : initMqtt o a m = some (pc, m', es)) :
    m' = m ∧ ∃ config ret, es = [.mqttInit config ret] ∧
      ((pc = .cleanupMqtt (-1) ∧ ret ≠ oprtOk) ∨ (pc = .ubusConnect ∧ ret = oprtOk)) := by
  cases a with
  | mqttInit ret =>
    simp only [initMqtt] at h
    split at h
    · rename_i hret
      cases h
      exact ⟨rfl, _, ret, rfl, Or.inl ⟨rfl, hret⟩⟩
    · rename_i hret
      cases h
      exact ⟨rfl, _, ret, rfl, Or.inr ⟨rfl, not_not.mp hret⟩⟩
  | _ => cases h

theorem connectUbus_cases (h : connectUbus a m = some (pc, m', es)) :
    (pc = .cleanupMqtt (-2) ∧ m' = { m with ubusCtx := none } ∧ es = [.ubusConnect none]) ∨
      ∃ ctx, pc = .connect ∧ m' = { m with ubusCtx := some ctx, userData := some ctx } ∧
        es = [.ubusConnect (some ctx)] := by
  cases a with
  | ubusConnect ctx =>
    cases ctx with
    | none =>
      cases h
      exact Or.inl ⟨rfl, rfl, rfl⟩
    | some ctx =>
      cases h
      exact Or.inr ⟨ctx, rfl, rfl, rfl⟩
  | _ => cases h

theorem askConnected_cases (h : askConnected a m = some (pc, m', es)) :
    m' = m ∧ ((pc = .mainHead 0 ∧ es = [.mqttConnected true]) ∨
      (pc = .setupHead ∧ es = [.mqttConnected false])) := by
  cases a with
  | mqttConnected answer =>
    cases answer with
    | true =>
      cases h
      exact ⟨rfl, Or.inl ⟨rfl, rfl⟩⟩
    | false =>
      cases h
      exact ⟨rfl, Or.inr ⟨rfl, rfl⟩⟩
  | _ => cases h

theorem cleanUp_cases {retVal : Int} (h : cleanUp retVal a m = some (pc, m', es)) :
    pc = .exited retVal ∧ m' = m ∧
      es = optionsConst.map .freeOptionName ++ [.uciFreeContext m.uciCtx] := by
  cases a with
  | cleanup =>
    cases h
    exact ⟨rfl, rfl, rfl⟩
  | _ => cases h

end Ask

/-- `send_memory_info(mqtt_ctx, ubus_ctx)`, called from `main_loop`. -/
def periodicSend {Attr Data : Type} (lib : Blobmsg Attr Data) (env : UbusEnv Attr)
    (m : Memory) : Option (Bool × Memory × List Effect) :=
  let (ok, c) := sendMemoryInfo lib env m.ubusCtx m.next
  some (ok, { m with next := c.next }, c.events.map .ubus)

def program {Attr Data : Type} (lib : Blobmsg Attr Data) :
    Program Pc Memory (UbusEnv Attr) (ActionEnv Attr) (UbusEnv Attr) Ask Effect where
  instr := instr
  callback := callback lib
  send := periodicSend lib

/-- `main` at its first call, after the signal handler has been set up. -/
def start : State Pc Memory := ⟨.uciAlloc, true, ⟨false, none, 0, none, none⟩⟩

def mainLoopTurn (o : LoopOutcome) (sendFailCount : UInt32) : LoopStatus :=
  if !o.keepRunning then .left true
  else if o.loopResult ≠ oprtOk then .left false
  else if !o.sent then
    let sendFailCount := sendFailCount + 1
    if sendFailCount = 10 then .left false else .head sendFailCount
  else .head 0

def mainLoop (outcomes : Nat → LoopOutcome) : Nat → LoopStatus
  | 0 => .head 0
  | n + 1 =>
    match mainLoop outcomes n with
    | .head sendFailCount => mainLoopTurn (outcomes n) sendFailCount
    | .left success => .left success

def statusPc : LoopStatus → Pc
  | .head sendFailCount => .mainHead sendFailCount
  | .left true => .cleanupMqtt exitSuccess
  | .left false => .cleanupMqtt exitFailure

/-- The steps of one turn take the program where `mainLoopTurn` says. -/
theorem exec_turn {Attr Data : Type} (lib : Blobmsg Attr Data)
    (t : Turn (UbusEnv Attr) (ActionEnv Attr) (UbusEnv Attr)) (sendFailCount : UInt32)
    {m m' : Memory} {es : List Effect}
    (h : EventMachine.exec (callback lib) m t.callbacks = some (m', es)) :
    (EventMachine.exec (step (program lib)) ⟨.mainHead sendFailCount, true, m⟩ t.inputs).map
        (·.1.pc) =
      some (statusPc (mainLoopTurn ⟨t.keepRunning, t.loopResult,
        (sendMemoryInfo lib t.env m'.ubusCtx m'.next).1⟩ sendFailCount)) := by
  cases hk : t.keepRunning with
  | false => simp [Turn.inputs, hk, EventMachine.exec, step, program, instr, mainLoopTurn, statusPc]
  | true =>
    by_cases hl : t.loopResult = oprtOk
    · cases hs : (sendMemoryInfo lib t.env m'.ubusCtx m'.next).1 with
      | false =>
        by_cases hc : sendFailCount + 1 = 10 <;>
          simp [Turn.inputs, hk, hl, EventMachine.exec, step, program, instr, h, periodicSend, hs,
            mainLoopTurn, hc, statusPc]
      | true =>
        simp [Turn.inputs, hk, hl, EventMachine.exec, step, program, instr, h, periodicSend, hs,
          mainLoopTurn, statusPc]
    · simp [Turn.inputs, hk, hl, EventMachine.exec, step, program, instr, h, mainLoopTurn, statusPc]

end TuyaDaemon.Openwrt
