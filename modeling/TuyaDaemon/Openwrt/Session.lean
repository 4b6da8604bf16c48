import TuyaDaemon.Session
import TuyaDaemon.Openwrt.Cleanup
import TuyaDaemon.Openwrt.Main

/-!
# The OpenWrt daemon in its session

As in the stand-alone daemon, but a failed `tuya_mqtt_init` is followed by a disconnect that
the protocol does not allow, so only the runs in which it succeeds are expected. What main
returns tells the phases apart.
-/

namespace TuyaDaemon.Openwrt

set_option autoImplicit false

open Daemon EventMachine

def Effect.init? : Effect → Option Int
  | mqttInit _ ret => some ret
  | _ => none

/-- Why main returns `retVal` when it has left the session in `last`. -/
inductive Verdict : Int → Bool → Session → Prop where
  | stopped {n : Nat} : Verdict exitSuccess false (.established n)
  | noUbus {keepRunning : Bool} : Verdict (-2) keepRunning (.ready 0)
  | gaveUp {last : Session} {keepRunning : Bool} (h : last.GaveUp keepRunning) :
      Verdict (-1) keepRunning last
  | setupBroken {keepRunning : Bool} : Verdict (-1) keepRunning (.broken .setup)
  | mainBroken {keepRunning : Bool} : Verdict exitFailure keepRunning (.broken .main)
  | unsent {keepRunning : Bool} : Verdict exitFailure keepRunning (.established 10)

theorem Verdict.signal {retVal : Int} {keepRunning : Bool} {last : Session}
    (h : Verdict retVal keepRunning last) : Verdict retVal false last := by
  cases h with
  | stopped => exact .stopped
  | noUbus => exact .noUbus
  | gaveUp h =>
    obtain ⟨n, rfl, _⟩ := h
    exact .gaveUp ⟨n, rfl, nofun⟩
  | setupBroken => exact .setupBroken
  | mainBroken => exact .mainBroken
  | unsent => exact .unsent

/-- Where the session stands when main has nothing left to do with it. -/
def Over (retVal : Int) (keepRunning : Bool) (q : Session) : Prop :=
  (retVal = exitFailure ∧ q = .fresh) ∨
    ∃ last, q = .released last ∧ Verdict retVal keepRunning last

theorem Over.signal {retVal : Int} {keepRunning : Bool} {q : Session}
    (h : Over retVal keepRunning q) : Over retVal false q := by
  rcases h with h | ⟨last, rfl, h⟩
  · exact Or.inl h
  · exact Or.inr ⟨last, rfl, h.signal⟩

/-- Where the session stands at a program point. -/
def Serves (keepRunning : Bool) : Pc → Session → Prop
  | .uciAlloc, q => q = .fresh
  | .options, q => q = .fresh
  | .mqttInit _, q => q = .fresh
  | .ubusConnect, q => q = .ready 0
  | .connect, q => q = .ready 0
  | .retryHead i sleepSeconds ret, q => q.AtRetryHead i sleepSeconds ret
  | .retrySleep i sleepSeconds, q => q.AtRetrySleep i sleepSeconds
  | .retryConnect i sleepSeconds, q => q.AtRetryConnect i sleepSeconds
  | .setupConnected, q => q = .established 0
  | .setupHead, q => q = .established 0
  | .setupLoop, q => q = .established 0
  | .mainHead sendFailCount, q => q.AtMain sendFailCount
  | .mainLoop sendFailCount, q => q.AtMain sendFailCount
  | .mainSleep sendFailCount, q => q.AtMain sendFailCount
  | .mainSend sendFailCount, q => q.AtMain sendFailCount
  | .cleanupMqtt retVal, q => Verdict retVal keepRunning q
  | .mqttDeinit retVal, q => ∃ last, q = .closed last ∧ Verdict retVal keepRunning last
  | .cleanupEnd retVal, q => Over retVal keepRunning q
  | .exited retVal, q => Over retVal keepRunning q

theorem Serves.signal {keepRunning : Bool} {pc : Pc} {q : Session}
    (h : Serves keepRunning pc q) : Serves false pc q := by
  cases pc with
  | cleanupMqtt retVal => exact Verdict.signal h
  | mqttDeinit retVal =>
    obtain ⟨last, rfl, h⟩ := h
    exact ⟨last, rfl, h.signal⟩
  | cleanupEnd retVal => exact Over.signal h
  | exited retVal => exact Over.signal h
  | _ => exact h

/-- Where the session stands in a state. -/
def serves (s : State Pc Memory) : Session → Prop := Serves s.keepRunning s.pc

/-- `tuya_mqtt_init` succeeds, when it is called. -/
def Initialises (e : Effect) : Prop := ∀ ret, e.init? = some ret → ret = oprtOk

section
variable {Attr Data : Type} {lib : Blobmsg Attr Data}

theorem init?_of_ofCallback {e : Effect} (h : e.ofCallback = true) : e.init? = none := by
  cases e with
  | mqttInit config ret => cases h
  | _ => rfl

theorem init?_periodicSend {env : UbusEnv Attr} {m m' : Memory} {ok : Bool} {es : List Effect}
    (h : periodicSend lib env m = some (ok, m', es)) : ∀ e ∈ es, e.init? = none := by
  cases h
  intro e he
  obtain ⟨u, _, rfl⟩ := List.mem_map.mp he
  rfl

/-! ## One step -/

/-- The calls that main makes once. -/
theorem goesOn_ask {s : State Pc Memory} {next : Ask → Memory → Outcome} {a : Ask} {pc : Pc}
    {m : Memory} {es : List Effect} {q : Session} (hi : instr s.pc = .ask next)
    (hask : next a s.mem = some (pc, m, es)) (h : serves s q) :
    GoesOn (Session.sdk Effect.init?) Initialises serves q { s with pc, mem := m }
      (es.map .own) := by
  obtain ⟨spc, k, mem⟩ := s
  cases spc with
  | uciAlloc =>
    cases hi
    obtain rfl : q = .fresh := h
    rcases allocUci_cases hask with ⟨rfl, _, rfl⟩ | ⟨_, rfl, _, rfl⟩
    · exact goesOn_quiet rfl (Or.inl ⟨rfl, rfl⟩)
    · exact goesOn_quiet rfl rfl
  | options =>
    cases hi
    obtain rfl : q = .fresh := h
    obtain ⟨rfl | ⟨_, rfl⟩, _, rfl⟩ := loadOptions_cases hask
    · exact goesOn_own nofun (Or.inl ⟨rfl, rfl⟩)
    · exact goesOn_own nofun rfl
  | mqttInit o =>
    cases hi
    obtain rfl : q = .fresh := h
    obtain ⟨_, config, ret, rfl, ⟨rfl, hret⟩ | ⟨rfl, hret⟩⟩ := initMqtt_cases hask
    · intro hexp
      exact absurd (hexp _ List.mem_cons_self ret rfl) hret
    · intro _
      refine ⟨_, Protocol.after_cons_eq_some_iff.mpr ⟨_, rfl, rfl⟩, ?_⟩
      exact if_pos hret
  | ubusConnect =>
    cases hi
    obtain rfl : q = .ready 0 := h
    rcases connectUbus_cases hask with ⟨rfl, _, rfl⟩ | ⟨_, rfl, _, rfl⟩
    · exact goesOn_quiet rfl .noUbus
    · exact goesOn_quiet rfl rfl
  | setupConnected =>
    cases hi
    obtain rfl : q = .established 0 := h
    obtain ⟨_, ⟨rfl, rfl⟩ | ⟨rfl, rfl⟩⟩ := askConnected_cases hask
    · exact goesOn_quiet rfl Session.atMain_zero
    · exact goesOn_quiet rfl rfl
  | cleanupEnd retVal =>
    cases hi
    obtain ⟨rfl, rfl, rfl⟩ := cleanUp_cases hask
    refine goesOn_own (fun e he _ => ?_) h
    rcases List.mem_append.mp he with he | he
    · obtain ⟨name, _, rfl⟩ := List.mem_map.mp he
      rfl
    · obtain rfl := List.mem_singleton.mp he
      rfl
  | _ => cases hi

/-- Every instruction keeps to the session. -/
theorem goesOn_instr (s : State Pc Memory) (q : Session) (h : serves s q) :
    (instr s.pc).Ensures (program lib) s
      (GoesOn (Session.sdk Effect.init?) Initialises serves q) := by
  have quiet : ∀ m cb m' es, (program lib).callback m cb = some (m', es) →
      ∀ e ∈ es, e.init? = none := by
    intro m cb m' es hcb e he
    exact init?_of_ofCallback ((callback_effects lib hcb).2 e he)
  obtain ⟨pc, k, mem⟩ := s
  cases pc with
  | uciAlloc => exact fun _ _ _ _ hask => goesOn_ask rfl hask h
  | options => exact fun _ _ _ _ hask => goesOn_ask rfl hask h
  | mqttInit o => exact fun _ _ _ _ hask => goesOn_ask rfl hask h
  | ubusConnect => exact fun _ _ _ _ hask => goesOn_ask rfl hask h
  | setupConnected => exact fun _ _ _ _ hask => goesOn_ask rfl hask h
  | cleanupEnd retVal => exact fun _ _ _ _ hask => goesOn_ask rfl hask h
  | connect =>
    obtain rfl : q = .ready 0 := h
    exact ensures_connect quiet fun _ _ hr _ => hr
  | retryHead i sleepSeconds ret =>
    apply ensures_retryHead h
    · simp [Session.retries, and_comm]
    · exact id
    · exact Verdict.gaveUp
    · exact id
  | retrySleep i sleepSeconds => exact ensures_retrySleep h fun _ hr => hr
  | retryConnect i sleepSeconds => exact ensures_retryConnect quiet h fun _ _ hr _ => hr
  | setupHead =>
    obtain rfl : q = .established 0 := h
    apply ensures_test
    · exact fun _ => ⟨_, rfl, rfl⟩
    · exact fun _ => Session.atMain_zero
  | setupLoop =>
    obtain rfl : q = .established 0 := h
    apply ensures_loop quiet
    · exact fun _ => Verdict.setupBroken
    · exact fun _ => rfl
  | mainHead sendFailCount =>
    obtain ⟨n, rfl, hn⟩ := h
    apply ensures_test
    · exact fun _ => ⟨_, rfl, n, rfl, hn⟩
    · intro hc
      obtain rfl : k = false := hc
      exact Verdict.stopped
  | mainLoop sendFailCount =>
    obtain ⟨n, rfl, hn⟩ := h
    apply ensures_loop quiet
    · exact fun _ => Verdict.mainBroken
    · exact fun _ => ⟨n, rfl, hn⟩
  | mainSleep sendFailCount =>
    obtain ⟨n, rfl, hn⟩ := h
    apply ensures_sleep (r := .established n)
    · rfl
    · exact ⟨n, rfl, hn⟩
  | mainSend sendFailCount =>
    apply ensures_mainSend (fun _ _ _ _ _ => init?_periodicSend) h
    · exact fun _ => Verdict.unsent
    · exact fun _ hr _ => hr
    · exact fun _ hr _ => hr
  | cleanupMqtt retVal =>
    apply ensures_sdk quiet
    intro ret
    refine ⟨.closed q, ?_, fun _ => ⟨q, rfl, h⟩⟩
    cases h with
    | gaveUp h =>
      obtain ⟨n, rfl, _⟩ := h
      rfl
    | _ => rfl
  | mqttDeinit retVal =>
    obtain ⟨last, rfl, h⟩ := h
    apply ensures_deinit (r := .released last) rfl
    exact Or.inr ⟨last, rfl, h⟩
  | exited retVal => trivial

def client (lib : Blobmsg Attr Data) : Client (program lib) (Session.sdk Effect.init?) where
  expected := Initialises
  serves := serves
  signal _ _ h := h.signal
  instr := goesOn_instr

/-! ## Whole runs -/

section Runs
variable {is : List (Input (UbusEnv Attr) (ActionEnv Attr) (UbusEnv Attr) Ask)}
  {es : List (Event Effect)} {s : State Pc Memory}
  (run : Run (step (program lib)) start is es s)
  (hinit : ∀ config ret, .own (.mqttInit config ret) ∈ es → ret = oprtOk)
include run hinit

theorem served_of_run : ∃ q, (Session.sdk Effect.init?).after .fresh es = some q ∧ serves s q := by
  apply (client lib).run run rfl
  intro e he ret hret
  cases e with
  | mqttInit config ret' =>
    cases hret
    exact hinit config ret he
  | _ => cases hret

/-- Where `tuya_mqtt_init` has not failed, a run obeys the protocol of the SDK, and at its end
the result of main tells how the session ended. -/
theorem sdk_session_of_run : ∃ q, (Session.sdk Effect.init?).after .fresh es = some q ∧
    ∀ retVal, s.pc = .exited retVal → Over retVal s.keepRunning q := by
  obtain ⟨q, hq, hserves⟩ := served_of_run run hinit
  refine ⟨q, hq, fun retVal hpc => ?_⟩
  change Serves s.keepRunning s.pc q at hserves
  rw [hpc] at hserves
  exact hserves

/-- The calls of sleep() in a run ask for 2, 4, 8, ... seconds, at most ten of them, then for
those of the main loop, and the attempts to connect are as many as the first kind, or one more. -/
theorem dial_pauses_of_run : ∃ k ≤ Session.retries, ∃ m,
    sleeps es = backoff k ++ List.replicate m 10 ∧
      k ≤ es.countP Event.isDial ∧ es.countP Event.isDial ≤ k + 1 := by
  obtain ⟨q, hq, _⟩ := served_of_run run hinit
  exact (Session.logged_after hq).schedule

end Runs
end

theorem init_wholeLife : ∀ config ret, .own (.mqttInit config ret) ∈ wholeLifeEvents →
    ret = oprtOk := by
  simp [wholeLifeEvents, released]

theorem sdk_session_of_run_wholeLife : ∃ t q,
    Run (step (program Blob.blobmsg)) start wholeLife wholeLifeEvents t ∧
      (Session.sdk Effect.init?).after .fresh wholeLifeEvents = some q ∧
      Over exitSuccess false q := by
  have hrun : Run (step (program Blob.blobmsg)) start wholeLife wholeLifeEvents _ :=
    run_of_exec rfl
  obtain ⟨q, hq, hover⟩ := sdk_session_of_run hrun init_wholeLife
  exact ⟨_, q, hrun, hq, hover _ rfl⟩

/-- The third `tuya_mqtt_connect` succeeds, and the main loop makes one turn. -/
def thirdTime : List BlobInput :=
  [.answer (.uciAllocContext (some ⟨1⟩)), .answer foundOptions, .answer (.mqttInit oprtOk),
    .answer (.ubusConnect (some ⟨5⟩)), .returned [] (-1), .tick, .tick, .returned [] (-1), .tick,
    .tick, .returned [] oprtOk, .tick, .answer (.mqttConnected true), .tick, .returned [] oprtOk,
    .tick, .sent emptyBus]

def thirdTimeEvents : List (Event Effect) :=
  [.own (.uciAllocContext (some ⟨1⟩)),
    .own (.mqttInit (tuyaMqttConfig (some (cstr "7")) (some (cstr "7"))) oprtOk),
    .own (.ubusConnect (some ⟨5⟩)), .call .connect, .returned .connect (-1), .iteration .retry,
    .sleep 2, .call .connect, .returned .connect (-1), .iteration .retry, .sleep 4, .call .connect,
    .returned .connect oprtOk, .own (.mqttConnected true), .iteration .main, .call (.loop .main),
    .returned (.loop .main) oprtOk, .sleep 10, .periodicSend,
    .own (.ubus (.lookupId (some ⟨5⟩) (cstr "system"))), .sent false]

theorem dial_pauses_of_run_thirdTime : ∃ t,
    Run (step (program Blob.blobmsg)) start thirdTime thirdTimeEvents t ∧
      sleeps thirdTimeEvents = [2, 4, 10] ∧ ∃ k ≤ Session.retries, ∃ m,
        sleeps thirdTimeEvents = backoff k ++ List.replicate m 10 ∧
          k ≤ thirdTimeEvents.countP Event.isDial := by
  have hrun : Run (step (program Blob.blobmsg)) start thirdTime thirdTimeEvents _ :=
    run_of_exec rfl
  have hinit : ∀ config ret, .own (.mqttInit config ret) ∈ thirdTimeEvents → ret = oprtOk := by
    simp [thirdTimeEvents]
  obtain ⟨k, hk, m, hsleeps, hdials, _⟩ := dial_pauses_of_run hrun hinit
  exact ⟨_, hrun, rfl, k, hk, m, hsleeps, hdials⟩

end TuyaDaemon.Openwrt
