import TuyaDaemon.Openwrt.Endurance
import TuyaDaemon.Shutdown
import TuyaDaemon.Standalone.Crash

/-!
# The stop signal, in both daemons

Every program point of the daemons belongs to a phase of the shutdown order, so the
bounds on what happens after a signal hold of both. The OpenWrt daemon always gets to the
end; the stand-alone one does unless a message brings it down on the way.
-/

namespace TuyaDaemon

set_option autoImplicit false

open Daemon EventMachine

namespace Openwrt

def phase : Pc → Phase
  | .uciAlloc => .starting
  | .options => .starting
  | .mqttInit _ => .starting
  | .ubusConnect => .opening
  | .connect => .connecting
  | .retryHead _ _ _ => .retryHead
  | .retrySleep _ _ => .backoff
  | .retryConnect _ _ => .connecting
  | .setupConnected => .setupAsk
  | .setupHead => .setupHead
  | .setupLoop => .setupLoop
  | .mainHead _ => .mainHead
  | .mainLoop _ => .mainLoop
  | .mainSleep _ => .mainSleep
  | .mainSend _ => .mainSend
  | .cleanupMqtt _ => .closing
  | .mqttDeinit _ => .deinit
  | .cleanupEnd _ => .cleanup
  | .exited _ => .done

theorem connectUbus_phase {a : Ask} {m m' : Memory} {pc : Pc} {es : List Effect}
    (h : connectUbus a m = some (pc, m', es)) : phase pc ∈ Phase.next .opening := by
  rcases connectUbus_cases h with ⟨rfl, _⟩ | ⟨_, rfl, _⟩
  · exact List.mem_cons_of_mem _ List.mem_cons_self
  · exact List.mem_cons_self

theorem askConnected_phase {a : Ask} {m m' : Memory} {pc : Pc} {es : List Effect}
    (h : askConnected a m = some (pc, m', es)) : phase pc ∈ Phase.next .setupAsk := by
  rcases (askConnected_cases h).2 with ⟨rfl, _⟩ | ⟨rfl, _⟩
  · exact List.mem_cons_of_mem _ List.mem_cons_self
  · exact List.mem_cons_self

theorem cleanUp_phase {retVal : Int} {a : Ask} {m m' : Memory} {pc : Pc} {es : List Effect}
    (h : cleanUp retVal a m = some (pc, m', es)) : phase pc ∈ Phase.next .cleanup := by
  obtain ⟨rfl, _⟩ := cleanUp_cases h
  exact List.mem_cons_self

theorem instr_conforms (pc : Pc) (h : phase pc ≠ .starting) :
    Conforms phase (phase pc) (instr pc) := by
  cases pc with
  | uciAlloc => exact absurd rfl h
  | options => exact absurd rfl h
  | mqttInit o => exact absurd rfl h
  | ubusConnect =>
    exact ⟨rfl, fun _ _ _ _ _ hask => connectUbus_phase hask⟩
  | connect => exact ⟨rfl, fun _ => List.mem_cons_self⟩
  | retryHead i sleepSeconds ret =>
    refine ⟨rfl, ?_⟩
    by_cases hret : ret = oprtOk <;> simp [hret, phase, Phase.next]
  | retrySleep i sleepSeconds => exact ⟨rfl, List.mem_cons_self⟩
  | retryConnect i sleepSeconds => exact ⟨rfl, fun _ => List.mem_cons_self⟩
  | setupConnected =>
    exact ⟨rfl, fun _ _ _ _ _ hask => askConnected_phase hask⟩
  | setupHead => exact ⟨rfl, List.mem_cons_self⟩
  | setupLoop =>
    refine ⟨rfl, fun ret => ?_⟩
    by_cases hret : ret = oprtOk <;> simp [hret, phase, Phase.next]
  | mainHead c => exact ⟨rfl, List.mem_cons_self⟩
  | mainLoop c =>
    refine ⟨rfl, fun ret => ?_⟩
    by_cases hret : ret = oprtOk <;> simp [hret, phase, Phase.next]
  | mainSleep c => exact ⟨rfl, List.mem_cons_self⟩
  | mainSend c =>
    refine ⟨rfl, fun ok => ?_⟩
    by_cases hc : c + 1 = 10 <;> cases ok <;> simp [hc, phase, Phase.next]
  | cleanupMqtt retVal => exact ⟨rfl, fun _ => List.mem_cons_self⟩
  | mqttDeinit retVal => exact ⟨rfl, List.mem_cons_self⟩
  | cleanupEnd retVal =>
    exact ⟨rfl, fun _ _ _ _ _ hask => cleanUp_phase hask⟩
  | exited retVal => exact rfl

def schedule {Attr Data : Type} (lib : Blobmsg Attr Data) : Schedule (program lib) where
  phase := phase
  conforms := instr_conforms

end Openwrt

namespace Standalone

def phase : Pc → Phase
  | .argpParse => .starting
  | .becomeDaemon _ => .starting
  | .mqttInit _ => .starting
  | .connect => .connecting
  | .retryHead _ _ _ => .retryHead
  | .retrySleep _ _ => .backoff
  | .retryConnect _ _ => .connecting
  | .setupHead _ => .setupHead
  | .setupLoop _ => .setupLoop
  | .mainHead _ => .mainHead
  | .mainLoop _ => .mainLoop
  | .mainSleep _ => .mainSleep
  | .mainSend _ => .mainSend
  | .cleanup _ => .closing
  | .mqttDeinit _ => .deinit
  | .freeFormat _ => .cleanup
  | .exited _ => .done
  | .argpExited _ => .done

theorem freeOnExit_phase {retVal : Int} {a : Ask} {m m' : Memory} {pc : Pc} {es : List Effect}
    (h : freeOnExit retVal a m = some (pc, m', es)) : phase pc ∈ Phase.next .cleanup := by
  obtain ⟨rfl, _⟩ := freeOnExit_cases h
  exact List.mem_cons_self

theorem instr_conforms (pc : Pc) (h : phase pc ≠ .starting) :
    Conforms phase (phase pc) (instr pc) := by
  cases pc with
  | argpParse => exact absurd rfl h
  | becomeDaemon arguments => exact absurd rfl h
  | mqttInit arguments => exact absurd rfl h
  | connect => exact ⟨rfl, fun _ => List.mem_cons_self⟩
  | retryHead i sleepSeconds ret =>
    refine ⟨rfl, ?_⟩
    by_cases hret : ret = oprtOk <;> simp [hret, phase, Phase.next]
  | retrySleep i sleepSeconds => exact ⟨rfl, List.mem_cons_self⟩
  | retryConnect i sleepSeconds => exact ⟨rfl, fun _ => List.mem_cons_self⟩
  | setupHead i => exact ⟨rfl, List.mem_cons_self⟩
  | setupLoop i =>
    refine ⟨rfl, fun ret => ?_⟩
    by_cases hret : ret = oprtOk <;> simp [hret, phase, Phase.next]
  | mainHead c => exact ⟨rfl, List.mem_cons_self⟩
  | mainLoop c =>
    refine ⟨rfl, fun ret => ?_⟩
    by_cases hret : ret = oprtOk <;> simp [hret, phase, Phase.next]
  | mainSleep c => exact ⟨rfl, List.mem_cons_self⟩
  | mainSend c =>
    refine ⟨rfl, fun ok => ?_⟩
    by_cases hc : c + 1 = 10 <;> cases ok <;> simp [hc, phase, Phase.next]
  | cleanup retVal => exact ⟨rfl, fun _ => List.mem_cons_self⟩
  | mqttDeinit retVal => exact ⟨rfl, List.mem_cons_self⟩
  | freeFormat retVal =>
    exact ⟨rfl, fun _ _ _ _ _ hask => freeOnExit_phase hask⟩
  | exited retVal => exact rfl
  | argpExited status => exact rfl

def schedule {Tm : Type} (lib : Strftime Tm) : Schedule (program lib) where
  phase := phase
  conforms := instr_conforms

end Standalone

section
variable {Pc Mem Conn Msg Env Ask ε : Type} {p : Program Pc Mem Conn Msg Env Ask ε}
  (sch : Schedule p) (env : Environment Pc Mem Ask)

variable {sch env}

end

end TuyaDaemon
