import TuyaDaemon.Session
import TuyaDaemon.Openwrt.SetUp
import TuyaDaemon.Standalone.SetUp

/-!
# The pause before the end

A stop signal between a loop head and the sleep behind it is not seen before that sleep is
over. There is no other one, and in the main loop it is short.
-/

namespace TuyaDaemon

set_option autoImplicit false

open Daemon EventMachine

namespace Daemon
variable {Pc Mem Conn Msg Env Ask ε : Type}

/-! ## The next sleep -/

/-- The sleep between a program point and the next loop head. -/
inductive Pause where
  | none
  /-- The `i`-th retry is next, if there is one. -/
  | head (i : Nat) (sleepSeconds : UInt32)
  | retry (i : Nat) (sleepSeconds : UInt32)
  | main
  deriving DecidableEq, Repr

namespace Pause

def ahead : Pause → List Nat
  | retry _ sleepSeconds => [sleepSeconds.toNat]
  | main => [10]
  | _ => []

/-- The pause of a retry is twice the one before. -/
def Doubles : Pause → Prop
  | head i sleepSeconds => i ≤ Session.retries ∧ sleepSeconds.toNat = 2 ^ (i + 1)
  | retry i sleepSeconds => i < Session.retries ∧ sleepSeconds.toNat = 2 ^ (i + 1)
  | _ => True

theorem length_ahead_le (q : Pause) : q.ahead.length ≤ 1 := by
  cases q <;> simp [ahead]

theorem Doubles.le {q : Pause} (h : q.Doubles) {n : Nat} (hn : n ∈ q.ahead) : n ≤ 1024 := by
  cases q with
  | retry i sleepSeconds =>
    obtain rfl := List.mem_singleton.mp hn
    rw [h.2]
    exact Nat.pow_le_pow_right (Nat.succ_pos 1) h.1
  | main =>
    obtain rfl := List.mem_singleton.mp hn
    decide
  | _ => cases hn

end Pause

/-- With the flag down a step uses up the sleep that is ahead. -/
def Paced (pause : Pc → Pause) (s t : State Pc Mem) (es : List (Event ε)) : Prop :=
  (s.keepRunning = false → (sleeps es ++ (pause t.pc).ahead).Sublist (pause s.pc).ahead) ∧
    ((pause s.pc).Doubles → (pause t.pc).Doubles)

/-- A program that sleeps only behind the heads of its loops. -/
structure Pausing (p : Program Pc Mem Conn Msg Env Ask ε) extends Dial p where
  pause : Pc → Pause
  paces : ∀ s, (p.instr s.pc).Ensures p s (Paced pause s)
  dials : ∀ pc i sleepSeconds, pause pc = .retry i sleepSeconds → stage pc = .dialing

/-- After a stop signal there is at most one more sleep. It asks for no more seconds than the
longest of `connect_to_tuya`, and for ten if `tuya_mqtt_connect` had succeeded. -/
def PausesOnce (p : Program Pc Mem Conn Msg Env Ask ε) (start : State Pc Mem) : Prop :=
  ∀ is es s, Run (step p) start is es s →
    ∀ js fs t, Run (step p) { s with keepRunning := false } js fs t →
      (sleeps fs).length ≤ 1 ∧ (∀ n ∈ sleeps fs, n ≤ 1024) ∧
        (connectOk ∈ es → ∀ n ∈ sleeps fs, n = 10)

namespace Pausing
variable {p : Program Pc Mem Conn Msg Env Ask ε} (P : Pausing p) {s t : State Pc Mem}
  {i : Input Conn Msg Env Ask} {is : List (Input Conn Msg Env Ask)} {es : List (Event ε)}

theorem paced_step (h : step p s i = some (t, es)) : Paced P.pause s t es := by
  apply step_ensures h ?_ (P.paces s)
  exact ⟨fun _ => List.Sublist.refl _, id⟩

theorem keepRunning_step (h : step p s i = some (t, es)) (hs : s.keepRunning = false) :
    t.keepRunning = false := by
  cases transition_of_step h <;> first
    | rfl
    | exact hs

theorem ahead_of_run (run : Run (step p) s is es t) (hs : s.keepRunning = false) :
    (sleeps es ++ (P.pause t.pc).ahead).Sublist (P.pause s.pc).ahead := by
  induction run with
  | nil => exact List.Sublist.refl _
  | @cons s t u i is es fs hstep _ ih =>
    have hrest := ih (keepRunning_step hstep hs)
    have hfirst := (P.paced_step hstep).1 hs
    rw [sleeps_append, List.append_assoc]
    exact (hrest.append_left (sleeps es)).trans hfirst

theorem doubles_of_run (run : Run (step p) s is es t) (hs : (P.pause s.pc).Doubles) :
    (P.pause t.pc).Doubles :=
  run.invariant (P := fun s => (P.pause s.pc).Doubles) (fun hs h => (P.paced_step h).2 hs) hs

theorem ten_of_connected {pc : Pc} (h : P.stage pc ≠ .dialing) {n : Nat}
    (hn : n ∈ (P.pause pc).ahead) : n = 10 := by
  cases hpause : P.pause pc with
  | retry i sleepSeconds => exact absurd (P.dials pc i sleepSeconds hpause) h
  | main =>
    rw [hpause] at hn
    exact List.mem_singleton.mp hn
  | _ =>
    rw [hpause] at hn
    cases hn

theorem pausesOnce {start : State Pc Mem} (hstage : P.stage start.pc = .dialing)
    (hdoubles : (P.pause start.pc).Doubles) : PausesOnce p start := by
  intro is es s hrun js fs t hrest
  have hahead := (List.sublist_append_left _ _).trans (P.ahead_of_run hrest rfl)
  have hdialed := hrun.history (P := P.toDial.Dialed) (fun hs hstep => hs.keep hstep) (h := [])
    (Dial.Dialed.of_start hstage)
  refine ⟨?_, ?_, ?_⟩
  · exact hahead.length_le.trans (P.pause s.pc).length_ahead_le
  · intro n hn
    exact (P.doubles_of_run hrun hdoubles).le (hahead.subset hn)
  · intro hok n hn
    apply P.ten_of_connected ?_ (hahead.subset hn)
    intro hdialing
    exact hdialed.dialing hdialing hok

end Pausing

/-! ### Instruction by instruction -/

section
variable {p : Program Pc Mem Conn Msg Env Ask ε} {pause : Pc → Pause} {s : State Pc Mem}

theorem paced_idle {t : State Pc Mem} {es : List (Event ε)} (hes : sleeps es = [])
    (ht : pause t.pc = .none) : Paced pause s t es := by
  rw [Paced, hes, ht]
  exact ⟨fun _ => List.nil_sublist _, fun _ => trivial⟩

theorem paces_ask {next : Ask → Mem → Option (Pc × Mem × List ε)}
    (h : ∀ a m pc mem es, next a m = some (pc, mem, es) → pause pc = .none) :
    (Instr.ask next : Instr Pc Mem Ask ε).Ensures p s (Paced pause s) := by
  intro a pc mem es hask
  exact paced_idle (sleeps_own es) (h a _ pc mem es hask)

theorem paces_sdk {c : SdkCall} {next : Int → Pc} (h : ∀ ret, pause (next ret) = .none) :
    (Instr.sdk c next : Instr Pc Mem Ask ε).Ensures p s (Paced pause s) := by
  intro callbacks ret mem es _
  exact paced_idle (sleeps_sdk c ret es) (h ret)

theorem paces_send {next : Bool → Pc} (h : ∀ ok, pause (next ok) = .none) :
    (Instr.send next : Instr Pc Mem Ask ε).Ensures p s (Paced pause s) := by
  intro env ok mem es _
  exact paced_idle (sleeps_send ok es) (h ok)

theorem paces_connect {i : Nat} {sleepSeconds : UInt32} {next : Int → Pc}
    (hs : (pause s.pc).Doubles → (Pause.head i sleepSeconds).Doubles)
    (hnext : ∀ ret, pause (next ret) = .head i sleepSeconds) :
    (Instr.sdk .connect next : Instr Pc Mem Ask ε).Ensures p s (Paced pause s) := by
  intro callbacks ret mem es _
  rw [Paced, sleeps_sdk, hnext ret]
  exact ⟨fun _ => List.nil_sublist _, hs⟩

/-- With the flag down no loop is entered. -/
theorem paces_head {l : LoopName} {condition : Bool} {enter leave : Pc}
    (henter : condition = true → (pause s.pc).Doubles → (pause enter).Doubles)
    (hleave : pause leave = .none) :
    (Instr.test l condition enter leave : Instr Pc Mem Ask ε).Ensures p s (Paced pause s) := by
  constructor
  · intro hc hk
    refine ⟨fun hdown => ?_, henter hc⟩
    rw [hk] at hdown
    cases hdown
  · intro _
    exact paced_idle rfl hleave

theorem paces_retryHead {i : Nat} {sleepSeconds : UInt32} {condition : Bool} {enter leave : Pc}
    (hs : pause s.pc = .head i sleepSeconds) (henter : pause enter = .retry i sleepSeconds)
    (hcond : condition = true → i < Session.retries) (hleave : pause leave = .none) :
    (Instr.test .retry condition enter leave : Instr Pc Mem Ask ε).Ensures p s
      (Paced pause s) := by
  apply paces_head ?_ hleave
  intro hc hd
  rw [hs] at hd
  rw [henter]
  exact ⟨hcond hc, hd.2⟩

theorem paces_retrySleep {i : Nat} {sleepSeconds : UInt32} {next : Pc}
    (hs : pause s.pc = .retry i sleepSeconds)
    (hnext : pause next = .head (i + 1) (sleepSeconds * 2)) :
    (Instr.sleep sleepSeconds next : Instr Pc Mem Ask ε).Ensures p s (Paced pause s) := by
  refine ⟨fun _ => ?_, fun hd => ?_⟩
  · rw [hs, hnext]
    exact List.Sublist.refl _
  · rw [hs] at hd
    rw [hnext]
    exact ⟨hd.1, double_toNat hd.1 hd.2⟩

theorem paces_mainLoop {fail next : Pc} (hs : pause s.pc = .main) (hfail : pause fail = .none)
    (hnext : pause next = .main) :
    (Instr.sdk (.loop .main) fun ret => if ret ≠ oprtOk then fail else next :
      Instr Pc Mem Ask ε).Ensures p s (Paced pause s) := by
  intro callbacks ret mem es _
  change Paced pause s { s with pc := if ret ≠ oprtOk then fail else next, mem } _
  by_cases hret : ret = oprtOk
  · rw [if_neg (not_not.mpr hret), Paced, sleeps_sdk, hs, hnext]
    exact ⟨fun _ => List.Sublist.refl _, id⟩
  · rw [if_pos hret]
    exact paced_idle (sleeps_sdk _ ret es) hfail

theorem paces_mainSleep {next : Pc} (hs : pause s.pc = .main) (hnext : pause next = .none) :
    (Instr.sleep 10 next : Instr Pc Mem Ask ε).Ensures p s (Paced pause s) := by
  rw [Instr.Ensures, Paced, hs, hnext]
  exact ⟨fun _ => List.Sublist.refl _, fun _ => trivial⟩

end
end Daemon

/-! ## The two programs -/

namespace Openwrt

def pause : Pc → Pause
  | .retryHead i sleepSeconds _ => .head i sleepSeconds
  | .retrySleep i sleepSeconds => .retry i sleepSeconds
  | .retryConnect i sleepSeconds => .head (i + 1) sleepSeconds
  | .mainLoop _ => .main
  | .mainSleep _ => .main
  | _ => .none

variable {Attr Data : Type} (lib : Blobmsg Attr Data)

theorem instr_paces (s : State Pc Memory) :
    (instr s.pc).Ensures (program lib) s (Paced pause s) := by
  obtain ⟨pc, k, m⟩ := s
  cases pc with
  | uciAlloc =>
    apply paces_ask
    intro a m pc mem es h
    rcases allocUci_cases h with ⟨rfl, _⟩ | ⟨_, rfl, _⟩ <;> rfl
  | options =>
    apply paces_ask
    intro a m pc mem es h
    obtain ⟨rfl | ⟨_, rfl⟩, _⟩ := loadOptions_cases h <;> rfl
  | mqttInit o =>
    apply paces_ask
    intro a m pc mem es h
    obtain ⟨_, _, _, _, ⟨rfl, _⟩ | ⟨rfl, _⟩⟩ := initMqtt_cases h <;> rfl
  | ubusConnect =>
    apply paces_ask
    intro a m pc mem es h
    rcases connectUbus_cases h with ⟨rfl, _⟩ | ⟨_, rfl, _⟩ <;> rfl
  | connect => exact paces_connect (fun _ => ⟨Nat.zero_le _, rfl⟩) fun _ => rfl
  | retryHead i sleepSeconds ret =>
    refine paces_retryHead rfl ?_ ?_ ?_
    · rfl
    · intro hc
      exact of_decide_eq_true (Bool.and_eq_true_iff.mp hc).2
    · split <;> rfl
  | retrySleep i sleepSeconds => exact paces_retrySleep rfl rfl
  | retryConnect i sleepSeconds => exact paces_connect id fun _ => rfl
  | setupConnected =>
    apply paces_ask
    intro a m pc mem es h
    obtain ⟨_, ⟨rfl, _⟩ | ⟨rfl, _⟩⟩ := askConnected_cases h <;> rfl
  | setupHead => exact paces_head (fun _ _ => trivial) rfl
  | setupLoop =>
    apply paces_sdk
    intro ret
    split <;> rfl
  | mainHead c => exact paces_head (fun _ _ => trivial) rfl
  | mainLoop c => exact paces_mainLoop rfl rfl rfl
  | mainSleep c => exact paces_mainSleep rfl rfl
  | mainSend c =>
    apply paces_send
    intro ok
    by_cases hc : c + 1 = 10 <;> cases ok <;> simp [hc, pause]
  | cleanupMqtt retVal => exact paces_sdk fun _ => rfl
  | mqttDeinit retVal => exact paced_idle rfl rfl
  | cleanupEnd retVal =>
    apply paces_ask
    intro a m pc mem es h
    obtain ⟨rfl, _⟩ := cleanUp_cases h
    rfl
  | exited retVal => trivial

def pausing : Pausing (program lib) where
  toDial := dial lib
  pause := pause
  paces := instr_paces lib
  dials pc i sleepSeconds h := by
    cases pc with
    | retrySleep i sleepSeconds => rfl
    | _ => cases h

end Openwrt

namespace Standalone

def pause : Pc → Pause
  | .retryHead i sleepSeconds _ => .head i sleepSeconds
  | .retrySleep i sleepSeconds => .retry i sleepSeconds
  | .retryConnect i sleepSeconds => .head (i + 1) sleepSeconds
  | .mainLoop _ => .main
  | .mainSleep _ => .main
  | _ => .none

variable {Tm : Type} (lib : Strftime Tm)

theorem instr_paces (s : State Pc Memory) :
    (instr s.pc).Ensures (program lib) s (Paced pause s) := by
  obtain ⟨pc, k, m⟩ := s
  cases pc with
  | argpParse =>
    apply paces_ask
    intro a m pc mem es h
    obtain ⟨rfl | ⟨_, rfl⟩ | ⟨_, rfl | rfl⟩, _⟩ := readArguments_cases h <;> rfl
  | becomeDaemon arguments =>
    apply paces_ask
    intro a m pc mem es h
    obtain ⟨rfl | rfl, _⟩ := checkDaemon_cases h <;> rfl
  | mqttInit arguments =>
    apply paces_ask
    intro a m pc mem es h
    obtain ⟨rfl | rfl, _⟩ := initTuya_cases h <;> rfl
  | connect => exact paces_connect (fun _ => ⟨Nat.zero_le _, rfl⟩) fun _ => rfl
  | retryHead i sleepSeconds ret =>
    refine paces_retryHead rfl ?_ ?_ ?_
    · rfl
    · intro hc
      exact of_decide_eq_true (Bool.and_eq_true_iff.mp hc).1
    · split <;> rfl
  | retrySleep i sleepSeconds => exact paces_retrySleep rfl rfl
  | retryConnect i sleepSeconds => exact paces_connect id fun _ => rfl
  | setupHead i => exact paces_head (fun _ _ => trivial) rfl
  | setupLoop i =>
    apply paces_sdk
    intro ret
    split <;> rfl
  | mainHead c => exact paces_head (fun _ _ => trivial) rfl
  | mainLoop c => exact paces_mainLoop rfl rfl rfl
  | mainSleep c => exact paces_mainSleep rfl rfl
  | mainSend c =>
    apply paces_send
    intro ok
    by_cases hc : c + 1 = 10 <;> cases ok <;> simp [hc, pause]
  | cleanup retVal => exact paces_sdk fun _ => rfl
  | mqttDeinit retVal => exact paced_idle rfl rfl
  | freeFormat retVal =>
    apply paces_ask
    intro a m pc mem es h
    obtain ⟨rfl, _⟩ := freeOnExit_cases h
    rfl
  | exited retVal => trivial
  | argpExited status => trivial

def pausing : Pausing (program lib) where
  toDial := dial lib
  pause := pause
  paces := instr_paces lib
  dials pc i sleepSeconds h := by
    cases pc with
    | retrySleep i sleepSeconds => rfl
    | _ => cases h

end Standalone

/-- A stop signal may have to wait for one sleep: seventeen minutes at most, and ten seconds
once `tuya_mqtt_connect` has succeeded. -/
theorem stop_signal_bounds_pause :
    (∀ {Attr Data : Type} (lib : Openwrt.Blobmsg Attr Data),
      PausesOnce (Openwrt.program lib) Openwrt.start) ∧
    ∀ {Tm : Type} (lib : Standalone.Strftime Tm),
      PausesOnce (Standalone.program lib) Standalone.start :=
  ⟨fun lib => (Openwrt.pausing lib).pausesOnce rfl trivial,
    fun lib => (Standalone.pausing lib).pausesOnce rfl trivial⟩

section
open Standalone

/-- Ten attempts to connect have failed, and the last retry is next. -/
def toLastRetry : List (Input (TimeEnv Unit) Decoder (TimeEnv Unit) Ask) :=
  [.answer (.argv []), .answer (.mqttInit oprtOk), .returned [] (-1)] ++
    (List.replicate 9 [.tick, .tick, .returned [] (-1)]).flatten ++ [.tick]

/-- It comes after its pause all the same. -/
def lastRetry : List (Input (TimeEnv Unit) Decoder (TimeEnv Unit) Ask) :=
  [.tick, .returned [] (-1), .tick, .returned [] oprtOk, .tick, .answer .cleanup]

theorem stop_signal_bounds_pause_lastRetry : ∃ es s fs t,
    Run (step (program plainStrftime)) start toLastRetry es s ∧
      Run (step (program plainStrftime)) { s with keepRunning := false } lastRetry fs t ∧
      sleeps fs = [1024] ∧ (sleeps fs).length ≤ 1 ∧ ∀ n ∈ sleeps fs, n ≤ 1024 := by
  have hexec : (exec (step (program plainStrftime)) start toLastRetry).map Prod.fst =
      some ⟨.retrySleep 9 1024, true, ⟨false, initialFormat, 0⟩⟩ := by decide +kernel
  obtain ⟨⟨s, es⟩, hexec, rfl⟩ := Option.map_eq_some_iff.mp hexec
  have hrun := run_of_exec hexec
  have hrest := @run_of_exec _ _ _ (step (program plainStrftime))
    ⟨.retrySleep 9 1024, false, ⟨false, initialFormat, 0⟩⟩ _ lastRetry _ rfl
  obtain ⟨hone, hlong, _⟩ := stop_signal_bounds_pause.2 plainStrftime _ _ _ hrun _ _ _ hrest
  exact ⟨es, _, _, _, hrun, hrest, rfl, hone, hlong⟩

end

end TuyaDaemon
