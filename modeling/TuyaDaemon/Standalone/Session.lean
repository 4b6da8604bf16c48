import TuyaDaemon.Session
import TuyaDaemon.Standalone.Main
import TuyaDaemon.Standalone.PropertySet
import TuyaDaemon.Standalone.TimeReport

/-!
# The stand-alone daemon in its session

Every program point belongs to a state of the session, with the counters that its locals
keep of it. What main returns says how the session ended.
-/

namespace TuyaDaemon.Standalone

set_option autoImplicit false

open Daemon EventMachine

def Effect.init? : Effect → Option Int
  | mqttInit _ ret => some ret
  | _ => none

/-- Why main returns `retVal` when it has left the session in `last`. -/
inductive Verdict : Int → Bool → Session → Prop where
  | stopped {n : Nat} : Verdict exitSuccess false (.established n)
  | gaveUp {last : Session} {keepRunning : Bool} (h : last.GaveUp keepRunning) :
      Verdict exitFailure keepRunning last
  | broken {l : LoopName} {keepRunning : Bool} : Verdict exitFailure keepRunning (.broken l)
  | unsent {keepRunning : Bool} : Verdict exitFailure keepRunning (.established 10)

theorem Verdict.signal {retVal : Int} {keepRunning : Bool} {last : Session}
    (h : Verdict retVal keepRunning last) : Verdict retVal false last := by
  cases h with
  | stopped => exact .stopped
  | gaveUp h =>
    obtain ⟨n, rfl, _⟩ := h
    exact .gaveUp ⟨n, rfl, nofun⟩
  | broken => exact .broken
  | unsent => exact .unsent

/-- Where the session stands at a program point. -/
def Serves (keepRunning : Bool) : Pc → Session → Prop
  | .argpParse, q => q = .fresh
  | .becomeDaemon _, q => q = .fresh
  | .mqttInit _, q => q = .fresh
  | .connect, q => q = .ready 0
  | .retryHead i sleepSeconds ret, q => q.AtRetryHead i sleepSeconds ret
  | .retrySleep i sleepSeconds, q => q.AtRetrySleep i sleepSeconds
  | .retryConnect i sleepSeconds, q => q.AtRetryConnect i sleepSeconds
  | .setupHead _, q => q = .established 0
  | .setupLoop _, q => q = .established 0
  | .mainHead sendFailCount, q => q.AtMain sendFailCount
  | .mainLoop sendFailCount, q => q.AtMain sendFailCount
  | .mainSleep sendFailCount, q => q.AtMain sendFailCount
  | .mainSend sendFailCount, q => q.AtMain sendFailCount
  | .cleanup retVal, q => Verdict retVal keepRunning q
  | .mqttDeinit retVal, q => ∃ last, q = .closed last ∧ Verdict retVal keepRunning last
  | .freeFormat retVal, q => ∃ last, q = .released last ∧ Verdict retVal keepRunning last
  | .argpExited _, q => q = .fresh
  | .exited retVal, q => (retVal = exitFailure ∧ (q = .fresh ∨ q = .refused)) ∨
    ∃ last, q = .released last ∧ Verdict retVal keepRunning last

theorem Serves.signal {keepRunning : Bool} {pc : Pc} {q : Session}
    (h : Serves keepRunning pc q) : Serves false pc q := by
  cases pc with
  | cleanup retVal => exact Verdict.signal h
  | mqttDeinit retVal =>
    obtain ⟨last, rfl, h⟩ := h
    exact ⟨last, rfl, h.signal⟩
  | freeFormat retVal =>
    obtain ⟨last, rfl, h⟩ := h
    exact ⟨last, rfl, h.signal⟩
  | exited retVal =>
    rcases h with h | ⟨last, rfl, h⟩
    · exact Or.inl h
    · exact Or.inr ⟨last, rfl, h.signal⟩
  | _ => exact h

section
variable {Tm : Type} {lib : Strftime Tm}

/-! ## The callbacks -/

theorem init?_sendCurrentTime {env : TimeEnv Tm} {format : CString} {ret : Int}
    {es : List Effect} (h : sendCurrentTime lib env format = .ok (ret, es)) :
    ∀ e ∈ es, e.init? = none := by
  obtain ⟨_, _, hsend, hes⟩ := sendCurrentTime_outcome lib env format
  rw [h] at hsend
  cases hsend
  rcases hes with rfl | ⟨msg, rfl⟩
  · nofun
  · exact List.forall_mem_singleton.mpr rfl

theorem init?_freeDateTimeFormat (d : DateTimeFormat) :
    ∀ e ∈ freeDateTimeFormat d, e.init? = none := by
  unfold freeDateTimeFormat
  split
  · exact List.forall_mem_singleton.mpr rfl
  · nofun

theorem init?_onMessages {decode : Decoder} {msg : TuyalinkMessage}
    {d d' : DateTimeFormat} {next next' : Nat} {es : List Effect}
    (h : onMessages decode msg d next = .ok (d', next', es)) : ∀ e ∈ es, e.init? = none := by
  rcases onMessages_cases h with ⟨_, _, ⟨_, rfl⟩ | ⟨j, _, rfl⟩⟩ | ⟨s, rest, _, _, _, rfl⟩
  · nofun
  · simp [discard, Effect.init?]
  · rw [List.forall_mem_append, List.forall_mem_cons]
    exact ⟨⟨rfl, init?_freeDateTimeFormat d⟩, List.forall_mem_singleton.mpr rfl⟩

theorem init?_callback {m m' : Memory} {cb : Callback (TimeEnv Tm) Decoder}
    {es : List Effect} (h : callback lib m cb = some (m', es)) : ∀ e ∈ es, e.init? = none := by
  unfold callback at h
  cases hl : cb.link m.linked with
  | none =>
    simp only [hl] at h
    cases h
  | some linked =>
    simp only [hl] at h
    cases cb with
    | onConnected env =>
      simp only at h
      split at h
      · cases h
      · rename_i hsend
        cases h
        exact List.forall_mem_cons.mpr ⟨rfl, init?_sendCurrentTime hsend⟩
    | onMessages msg decode =>
      simp only at h
      split at h
      · cases h
      · rename_i hmsg
        cases h
        exact List.forall_mem_cons.mpr ⟨rfl, init?_onMessages hmsg⟩
    | onDisconnect =>
      cases h
      exact List.forall_mem_singleton.mpr rfl

theorem init?_periodicSend {env : TimeEnv Tm} {m m' : Memory} {ok : Bool} {es : List Effect}
    (h : periodicSend lib env m = some (ok, m', es)) : ∀ e ∈ es, e.init? = none := by
  simp only [periodicSend] at h
  split at h
  · cases h
  · rename_i hsend
    cases h
    exact init?_sendCurrentTime hsend

/-! ## One step -/

/-- Where the session stands in a state. -/
def serves (s : State Pc Memory) : Session → Prop := Serves s.keepRunning s.pc

/-- The calls that main makes once. -/
theorem goesOn_ask {s : State Pc Memory} {next : Ask → Memory → Outcome} {a : Ask} {pc : Pc}
    {m : Memory} {es : List Effect} {q : Session} (hi : instr s.pc = .ask next)
    (hask : next a s.mem = some (pc, m, es)) (h : serves s q) :
    GoesOn (Session.sdk Effect.init?) (fun _ => True) serves q { s with pc, mem := m }
      (es.map .own) := by
  obtain ⟨spc, k, mem⟩ := s
  cases spc with
  | argpParse =>
    cases hi
    obtain rfl : q = .fresh := h
    obtain ⟨rfl | ⟨_, rfl⟩ | ⟨_, rfl | rfl⟩, _, rfl⟩ := readArguments_cases hask
    · exact goesOn_own nofun (Or.inl ⟨rfl, Or.inl rfl⟩)
    · exact goesOn_own nofun rfl
    · exact goesOn_own nofun rfl
    · exact goesOn_own nofun rfl
  | becomeDaemon arguments =>
    cases hi
    obtain rfl : q = .fresh := h
    obtain ⟨rfl | rfl, _, rfl⟩ := checkDaemon_cases hask
    · exact goesOn_own nofun (Or.inl ⟨rfl, Or.inl rfl⟩)
    · exact goesOn_own nofun rfl
  | mqttInit arguments =>
    cases hi
    obtain rfl : q = .fresh := h
    cases a with
    | mqttInit ret =>
      simp only [initTuya] at hask
      split at hask
      · rename_i hret
        cases hask
        intro _
        refine ⟨_, Protocol.after_cons_eq_some_iff.mpr ⟨_, rfl, rfl⟩, ?_⟩
        exact Or.inl ⟨rfl, Or.inr (if_neg hret)⟩
      · rename_i hret
        cases hask
        intro _
        refine ⟨_, Protocol.after_cons_eq_some_iff.mpr ⟨_, rfl, rfl⟩, ?_⟩
        exact if_pos (not_not.mp hret)
    | _ => cases hask
  | freeFormat retVal =>
    cases hi
    obtain ⟨rfl, rfl, rfl⟩ := freeOnExit_cases hask
    exact goesOn_own (fun e he _ => init?_freeDateTimeFormat _ e he) (Or.inr h)
  | _ => cases hi

/-- Every instruction keeps to the session. -/
theorem goesOn_instr (s : State Pc Memory) (q : Session) (h : serves s q) :
    (instr s.pc).Ensures (program lib) s
      (GoesOn (Session.sdk Effect.init?) (fun _ => True) serves q) := by
  have quiet : ∀ m cb m' es, (program lib).callback m cb = some (m', es) →
      ∀ e ∈ es, e.init? = none := fun _ _ _ _ => init?_callback
  obtain ⟨pc, k, mem⟩ := s
  cases pc with
  | argpParse => exact fun _ _ _ _ hask => goesOn_ask rfl hask h
  | becomeDaemon arguments => exact fun _ _ _ _ hask => goesOn_ask rfl hask h
  | mqttInit arguments => exact fun _ _ _ _ hask => goesOn_ask rfl hask h
  | freeFormat retVal => exact fun _ _ _ _ hask => goesOn_ask rfl hask h
  | connect =>
    obtain rfl : q = .ready 0 := h
    exact ensures_connect quiet fun _ _ hr _ => hr
  | retryHead i sleepSeconds ret =>
    apply ensures_retryHead h
    · simp [Session.retries]
    · exact id
    · exact Verdict.gaveUp
    · exact id
  | retrySleep i sleepSeconds => exact ensures_retrySleep h fun _ hr => hr
  | retryConnect i sleepSeconds => exact ensures_retryConnect quiet h fun _ _ hr _ => hr
  | setupHead i =>
    obtain rfl : q = .established 0 := h
    apply ensures_test
    · exact fun _ => ⟨_, rfl, rfl⟩
    · exact fun _ => Session.atMain_zero
  | setupLoop i =>
    obtain rfl : q = .established 0 := h
    apply ensures_loop quiet
    · exact fun _ => Verdict.broken
    · exact fun _ => rfl
  | mainHead sendFailCount =>
    obtain ⟨n, rfl, hn⟩ := h
    apply ensures_test
    · exact fun _ => ⟨_, rfl, n, rfl, hn⟩
    · intro hc
      obtain rfl : k = false := hc
      exact Verdict.stopped
  | mainLoop sendFailCount =>
    obtain ⟨n, rfl, hn⟩ := h
    apply ensures_loop quiet
    · exact fun _ => Verdict.broken
    · exact fun _ => ⟨n, rfl, hn⟩
  | mainSleep sendFailCount =>
    obtain ⟨n, rfl, hn⟩ := h
    apply ensures_sleep (r := .established n)
    · rfl
    · exact ⟨n, rfl, hn⟩
  | mainSend sendFailCount =>
    apply ensures_mainSend (fun _ _ _ _ _ => init?_periodicSend) h
    · exact fun _ => Verdict.unsent
    · exact fun _ hr _ => hr
    · exact fun _ hr _ => hr
  | cleanup retVal =>
    apply ensures_sdk quiet
    intro ret
    refine ⟨.closed q, ?_, fun _ => ⟨q, rfl, h⟩⟩
    cases h with
    | gaveUp h =>
      obtain ⟨n, rfl, _⟩ := h
      rfl
    | _ => rfl
  | mqttDeinit retVal =>
    obtain ⟨last, rfl, h⟩ := h
    apply ensures_deinit (r := .released last) rfl
    exact ⟨last, rfl, h⟩
  | exited retVal => trivial
  | argpExited status => trivial

def client (lib : Strftime Tm) : Client (program lib) (Session.sdk Effect.init?) where
  expected _ := True
  serves := serves
  signal _ _ h := h.signal
  instr := goesOn_instr

/-! ## Whole runs -/

section Runs
variable {is : List (Input (TimeEnv Tm) Decoder (TimeEnv Tm) Ask)}
  {es : List (Event Effect)} {s : State Pc Memory}
  (run : Run (step (program lib)) start is es s)
include run

/-- Every run obeys the protocol of the SDK. When `main` has returned, success means that
a stop signal ended a session that was established and never broke; failure means that there
was no session, that it broke, that the last ten sends failed, or that dialing was given up:
after all retries, if there was no signal. Where `argp_parse` has ended the process itself,
there was no session either. -/
theorem session_of_run : ∃ q, (Session.sdk Effect.init?).after .fresh es = some q ∧
    (∀ retVal, s.pc = .exited retVal →
      (retVal = exitFailure ∧ (q = .fresh ∨ q = .refused)) ∨
        ∃ last, q = .released last ∧ Verdict retVal s.keepRunning last) ∧
    ∀ status, s.pc = .argpExited status → q = .fresh := by
  obtain ⟨q, hq, hserves⟩ := (client lib).run run (q := .fresh) rfl fun _ _ => trivial
  change Serves s.keepRunning s.pc q at hserves
  refine ⟨q, hq, fun retVal hpc => ?_, fun status hpc => ?_⟩
  · rw [hpc] at hserves
    exact hserves
  · rw [hpc] at hserves
    exact hserves

/-- The calls of sleep() in a run ask for 2, 4, 8, ... seconds, at most ten of them, then for
those of the main loop, and the attempts to connect are as many as the first kind, or one more. -/
theorem pauses_of_run : ∃ k ≤ Session.retries, ∃ m,
    sleeps es = backoff k ++ List.replicate m 10 ∧
      k ≤ es.countP Event.isDial ∧ es.countP Event.isDial ≤ k + 1 := by
  obtain ⟨q, hq, _⟩ := (client lib).run run (q := .fresh) rfl fun _ _ => trivial
  exact (Session.logged_after hq).schedule

end Runs
end

/-- `tuya_mqtt_connect` fails eleven times. -/
def neverConnects : List (Input (TimeEnv Unit) Decoder (TimeEnv Unit) Ask) :=
  [.answer (.argv []), .answer (.mqttInit oprtOk), .returned [] (-1)] ++
    (List.replicate 10 [.tick, .tick, .returned [] (-1)]).flatten ++
    [.tick, .returned [] oprtOk, .tick, .answer .cleanup]

theorem neverConnects_run : ∃ es s,
    Run (step (program plainStrftime)) start neverConnects es s ∧ s.pc = .exited exitFailure := by
  have hexec : (exec (step (program plainStrftime)) start neverConnects).map (·.1.pc) =
      some (.exited exitFailure) := by decide +kernel
  obtain ⟨⟨s, es⟩, hexec, hpc⟩ := Option.map_eq_some_iff.mp hexec
  exact ⟨es, s, run_of_exec hexec, hpc⟩

theorem session_of_run_neverConnects : ∃ es s q,
    Run (step (program plainStrftime)) start neverConnects es s ∧
      (Session.sdk Effect.init?).after .fresh es = some q ∧
      ((q = .fresh ∨ q = .refused) ∨
        ∃ last, q = .released last ∧ Verdict exitFailure s.keepRunning last) := by
  obtain ⟨es, s, hrun, hpc⟩ := neverConnects_run
  obtain ⟨q, hq, hend, _⟩ := session_of_run hrun
  refine ⟨es, s, q, hrun, hq, ?_⟩
  rcases hend _ hpc with ⟨_, h⟩ | h
  · exact Or.inl h
  · exact Or.inr h

theorem pauses_of_run_neverConnects : ∃ es s,
    Run (step (program plainStrftime)) start neverConnects es s ∧
      ∃ k ≤ Session.retries, ∃ m, sleeps es = backoff k ++ List.replicate m 10 := by
  obtain ⟨es, s, hrun, _⟩ := neverConnects_run
  obtain ⟨k, hk, m, hsleeps, _⟩ := pauses_of_run hrun
  exact ⟨es, s, hrun, k, hk, m, hsleeps⟩

end TuyaDaemon.Standalone
