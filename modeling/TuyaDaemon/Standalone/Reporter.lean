import TuyaDaemon.Simulation
import TuyaDaemon.Standalone.FormatOwnership
import TuyaDaemon.Standalone.Main

/-!
# The stand-alone daemon as a reporter of the time

What the daemon is for: it remembers a format, and whenever a report is due it sends the time
in that format, or nothing if the expansion does not fit. The whole program refines this in
two steps, through the life of the format on the heap.
-/

namespace TuyaDaemon.Standalone

set_option autoImplicit false

open Daemon EventMachine

/-! ## The reporter -/

/-- What happens to the reporter: a message carries a format, or a report is due while the
clock shows `now`. -/
inductive Occasion (Tm : Type) where
  | newFormat (format : CString)
  | due (now : Option Tm)

def reportDue {Tm : Type} (lib : Strftime Tm) (format : CString) (now : Option Tm) :
    List CString :=
  match now with
  | none => []
  | some tm =>
    if Fits (lib.expansion format tm) then [reportText (lib.expansion format tm)] else []

def reporter {Tm : Type} (lib : Strftime Tm) : Step CString (Occasion Tm) CString
  | _, .newFormat format => some (format, [])
  | format, .due now => some (format, reportDue lib format now)

/-! ## The life of the format -/

inductive FormatUse (Tm : Type) where
  | call (c : FormatCall Tm)
  | tearDown

/-- The calls that use the format, up to `free_date_time_format`. -/
def formatLife {Tm : Type} (lib : Strftime Tm) :
    Step (Option FormatState) (FormatUse Tm) Effect
  | some s, .call c =>
    match formatCall lib s c with
    | none => none
    | some (t, es) => some (some t, es)
  | some s, .tearDown => some (none, freeDateTimeFormat s.format)
  | none, _ => none

section
variable {Tm : Type} {lib : Strftime Tm}

theorem formatLife_cases {u u' : Option FormatState} {i : FormatUse Tm} {es : List Effect}
    (h : formatLife lib u i = some (u', es)) : ∃ s, u = some s ∧
      ((∃ c t, i = .call c ∧ u' = some t ∧ formatCall lib s c = some (t, es)) ∨
        i = .tearDown ∧ u' = none ∧ es = freeDateTimeFormat s.format) := by
  cases u with
  | none => cases h
  | some s =>
    refine ⟨s, rfl, ?_⟩
    cases i with
    | tearDown =>
      cases h
      exact Or.inr ⟨rfl, rfl, rfl⟩
    | call c =>
      simp only [formatLife] at h
      split at h
      · cases h
      · rename_i t fs hcall
        cases h
        exact Or.inl ⟨c, t, rfl, rfl, hcall⟩

/-- What a use of the format is for the reporter. -/
def FormatUse.occasions : FormatUse Tm → List (Occasion Tm)
  | call (.onMessages msg decode) => (received decode msg).toList.map .newFormat
  | call (.sendCurrentTime env) => [.due env.now]
  | tearDown => []

def Effect.reports : Effect → List CString
  | report msg => [msg]
  | _ => []

theorem reports_sendCurrentTime {env : TimeEnv Tm} {format : CString} {ret : Int}
    {es : List Effect} (h : sendCurrentTime lib env format = .ok (ret, es)) :
    es.flatMap Effect.reports = reportDue lib format env.now := by
  cases hnow : env.now with
  | none =>
    rw [sendCurrentTime_of_no_clock lib env hnow] at h
    cases h
    rfl
  | some tm =>
    by_cases hs : Fits (lib.expansion format tm)
    · rw [sendCurrentTime_of_fits lib env hnow hs] at h
      cases h
      simp only [reportDue, if_pos hs]
      rfl
    · obtain ⟨_, _, hsend⟩ := sendCurrentTime_of_not_fits lib env hnow hs
      rw [hsend] at h
      cases h
      simp only [reportDue, if_neg hs]
      rfl

theorem reports_freeDateTimeFormat (d : DateTimeFormat) :
    (freeDateTimeFormat d).flatMap Effect.reports = [] := by
  unfold freeDateTimeFormat
  split <;> rfl

theorem reports_onMessages {decode : Decoder} {msg : TuyalinkMessage}
    {d d' : DateTimeFormat} {next next' : Nat} {es : List Effect}
    (h : onMessages decode msg d next = .ok (d', next', es)) :
    es.flatMap Effect.reports = [] := by
  rcases onMessages_cases h with ⟨_, _, ⟨_, rfl⟩ | ⟨j, _, rfl⟩⟩ | ⟨s, rest, _, _, _, rfl⟩
  · rfl
  · rfl
  · rw [List.flatMap_append, List.flatMap_cons, reports_freeDateTimeFormat]
    rfl

/-- The heap does not show: only the text of the format matters for the reports. -/
def lifeReports (lib : Strftime Tm) :
    Simulation (formatLife lib) (reporter lib) FormatUse.occasions Effect.reports where
  rel u format := ∀ s, u = some s → s.format.format.text = format
  simulate := by
    rintro u i u' es format hu hstep
    obtain ⟨s, rfl, ⟨c, t, rfl, rfl, hcall⟩ | ⟨rfl, rfl, rfl⟩⟩ := formatLife_cases hstep
    · obtain rfl := hu s rfl
      cases c with
      | onMessages msg decode =>
        simp only [formatCall] at hcall
        split at hcall
        · cases hcall
        · rename_i d next fs hmsg
          cases hcall
          rw [reports_onMessages hmsg, FormatUse.occasions]
          rcases onMessages_cases hmsg with ⟨hnone, rfl, _⟩ | ⟨v, rest, hsome, rfl, _⟩
          · rw [hnone]
            refine ⟨_, .nil _, ?_⟩
            rintro _ ⟨⟩
            rfl
          · rw [hsome]
            refine ⟨v, .single rfl, ?_⟩
            rintro _ ⟨⟩
            rfl
      | sendCurrentTime env =>
        simp only [formatCall] at hcall
        split at hcall
        · cases hcall
        · rename_i ret fs hsend
          cases hcall
          rw [reports_sendCurrentTime hsend]
          refine ⟨_, .single rfl, ?_⟩
          rintro _ ⟨⟩
          rfl
    · rw [reports_freeDateTimeFormat]
      exact ⟨format, .nil format, fun _ h => by cases h⟩

/-! ## The program -/

/-- What of the effects concerns the format and the reports. -/
def Effect.storage : Effect → List Effect
  | onConnected => []
  | onMessages => []
  | onDisconnect => []
  | mqttInit _ _ => []
  | e => [e]

def callbackUses : Callback (TimeEnv Tm) Decoder → List (FormatCall Tm)
  | .onConnected env => [.sendCurrentTime env]
  | .onMessages msg decode => [.onMessages msg decode]
  | .onDisconnect => []

theorem storage_sendCurrentTime {env : TimeEnv Tm} {format : CString} {ret : Int}
    {es : List Effect} (h : sendCurrentTime lib env format = .ok (ret, es)) :
    es.flatMap Effect.storage = es := by
  obtain ⟨_, _, hsend, hes⟩ := sendCurrentTime_outcome lib env format
  rw [h] at hsend
  cases hsend
  rcases hes with rfl | ⟨msg, rfl⟩ <;> rfl

theorem storage_freeDateTimeFormat (d : DateTimeFormat) :
    (freeDateTimeFormat d).flatMap Effect.storage = freeDateTimeFormat d := by
  unfold freeDateTimeFormat
  split <;> rfl

theorem storage_onMessages {decode : Decoder} {msg : TuyalinkMessage}
    {d d' : DateTimeFormat} {next next' : Nat} {es : List Effect}
    (h : onMessages decode msg d next = .ok (d', next', es)) :
    es.flatMap Effect.storage = es := by
  rcases onMessages_cases h with ⟨_, _, ⟨_, rfl⟩ | ⟨j, _, rfl⟩⟩ | ⟨s, rest, _, _, _, rfl⟩
  · rfl
  · rfl
  · rw [List.flatMap_append, List.flatMap_cons, storage_freeDateTimeFormat]
    rfl

def Memory.formatState (m : Memory) : FormatState := ⟨m.format, m.next⟩

/-- The callbacks do not look at the connection for what they do to the format. -/
def callbackFormat (lib : Strftime Tm) :
    Simulation (callback lib) (formatCall lib) callbackUses Effect.storage where
  rel m s := s = m.formatState
  simulate := by
    rintro m cb m' es _ rfl hstep
    unfold callback at hstep
    cases hl : cb.link m.linked with
    | none =>
      simp only [hl] at hstep
      cases hstep
    | some linked =>
      simp only [hl] at hstep
      cases cb with
      | onConnected env =>
        simp only at hstep
        split at hstep
        · cases hstep
        · rename_i ret fs hsend
          cases hstep
          refine ⟨_, .single ?_, rfl⟩
          rw [List.flatMap_cons, storage_sendCurrentTime hsend]
          simp only [formatCall, Memory.formatState, hsend]
          rfl
      | onMessages msg decode =>
        simp only at hstep
        split at hstep
        · cases hstep
        · rename_i d next fs hmsg
          cases hstep
          refine ⟨_, .single ?_, rfl⟩
          rw [List.flatMap_cons, storage_onMessages hmsg]
          simp only [formatCall, Memory.formatState, hmsg]
          rfl
      | onDisconnect =>
        cases hstep
        exact ⟨_, .nil _, rfl⟩

theorem formatLife_of_calls {s t : FormatState} {calls : List (FormatCall Tm)}
    {es : List Effect} (run : Run (formatCall lib) s calls es t) :
    Run (formatLife lib) (some s) (calls.map .call) es (some t) := by
  induction run with
  | nil => exact .nil _
  | cons h _ ih => exact .cons (by simp only [formatLife, h]) ih

abbrev ProgramInput (Tm : Type) := Input (TimeEnv Tm) Decoder (TimeEnv Tm) Ask

def inputUses : ProgramInput Tm → List (FormatUse Tm)
  | .returned callbacks _ => (callbacks.flatMap callbackUses).map .call
  | .sent env => [.call (.sendCurrentTime env)]
  | .answer .cleanup => [.tearDown]
  | _ => []

def eventStorage : Event Effect → List Effect
  | .own e => e.storage
  | _ => []

/-- Nothing has happened to the format yet, if `main` has not come this far. -/
def Early : Pc → Prop
  | .argpParse => True
  | .becomeDaemon _ => True
  | .mqttInit _ => True
  | .exited _ => True
  | .argpExited _ => True
  | _ => False

/-- The part of the state that the life of the format is about. -/
def LivesAs (s : State Pc Memory) : Option FormatState → Prop
  | some f => f = s.mem.formatState ∧ (Early s.pc → s.mem.format = initialFormat)
  | none => ∃ retVal, s.pc = .exited retVal

theorem eventStorage_own (es : List Effect) :
    (es.map Event.own).flatMap eventStorage = es.flatMap Effect.storage := by
  rw [List.flatMap_map]
  rfl

theorem not_early_of_sdk {pc : Pc} {c : SdkCall} {next : Int → Pc} (h : instr pc = .sdk c next)
    (ret : Int) : ¬ Early (next ret) := by
  cases pc with
  | connect =>
    cases h
    exact id
  | retryConnect i sleepSeconds =>
    cases h
    exact id
  | setupLoop i =>
    cases h
    simp only
    split <;> exact id
  | mainLoop n =>
    cases h
    simp only
    split <;> exact id
  | cleanup retVal =>
    cases h
    exact id
  | _ => cases h

theorem not_early_of_test {pc enter leave : Pc} {l : LoopName} {c : Bool}
    (h : instr pc = .test l c enter leave) : ¬ Early enter ∧ ¬ Early leave := by
  cases pc with
  | retryHead i sleepSeconds ret =>
    cases h
    refine ⟨id, ?_⟩
    split <;> exact id
  | setupHead i =>
    cases h
    exact ⟨id, id⟩
  | mainHead n =>
    cases h
    exact ⟨id, id⟩
  | _ => cases h

theorem not_early_of_sleep {pc next : Pc} {seconds : UInt32}
    (h : instr pc = .sleep seconds next) : ¬ Early next := by
  cases pc with
  | retrySleep i sleepSeconds =>
    cases h
    exact id
  | mainSleep n =>
    cases h
    exact id
  | _ => cases h

theorem not_early_of_send {pc : Pc} {next : Bool → Pc} (h : instr pc = .send next) (ok : Bool) :
    ¬ Early (next ok) := by
  cases pc with
  | mainSend n =>
    cases h
    cases ok with
    | true => exact id
    | false =>
      simp only [Bool.not_false, if_true]
      split <;> exact id
  | _ => cases h

theorem not_early_of_deinit {pc next : Pc} (h : instr pc = .deinit next) : ¬ Early next := by
  cases pc with
  | mqttDeinit retVal =>
    cases h
    exact id
  | _ => cases h

theorem exited_of_instr {pc : Pc} {retVal : Int} (h : pc = .exited retVal) :
    instr pc = .exit := by
  rw [h]
  rfl

/-- The calls that `main` makes once: only the last one concerns the format. -/
theorem livesAs_ask {s : State Pc Memory} {next : Ask → Memory → Outcome} {a : Ask} {pc : Pc}
    {m : Memory} {es : List Effect} {f : FormatState} (hi : instr s.pc = .ask next)
    (hask : next a s.mem = some (pc, m, es)) (hf : LivesAs s (some f)) :
    ∃ u, Run (formatLife lib) (some f) (inputUses (.answer a : ProgramInput Tm))
      ((es.map Event.own).flatMap eventStorage) u ∧ LivesAs { s with pc, mem := m } u := by
  obtain ⟨spc, k, mem⟩ := s
  obtain ⟨rfl, hearly⟩ := hf
  cases spc with
  | argpParse =>
    cases hi
    obtain ⟨_, rfl, rfl⟩ := readArguments_cases hask
    cases a with
    | argv argv => exact ⟨_, .nil _, rfl, fun _ => hearly trivial⟩
    | argpStop stop => exact ⟨_, .nil _, rfl, fun _ => hearly trivial⟩
    | _ => cases hask
  | becomeDaemon arguments =>
    cases hi
    obtain ⟨_, rfl, rfl⟩ := checkDaemon_cases hask
    cases a with
    | becomeDaemon ret => exact ⟨_, .nil _, rfl, fun _ => hearly trivial⟩
    | _ => cases hask
  | mqttInit arguments =>
    cases hi
    obtain ⟨_, rfl, config, ret, rfl⟩ := initTuya_cases hask
    cases a with
    | mqttInit ret => exact ⟨_, .nil _, rfl, fun _ => hearly trivial⟩
    | _ => cases hask
  | freeFormat retVal =>
    cases hi
    obtain ⟨rfl, rfl, rfl⟩ := freeOnExit_cases hask
    cases a with
    | cleanup =>
      refine ⟨none, ?_, retVal, rfl⟩
      rw [eventStorage_own, storage_freeDateTimeFormat]
      exact .single rfl
    | _ => cases hask
  | _ => cases hi

def programFormat (lib : Strftime Tm) :
    Simulation (step (program lib)) (formatLife lib) inputUses eventStorage where
  rel := LivesAs
  simulate := by
    intro s i s' es u hu hstep
    cases u with
    | none =>
      obtain ⟨retVal, hpc⟩ := hu
      have hexit : (program lib).instr s.pc = .exit := exited_of_instr hpc
      cases transition_of_step hstep with
      | signal => exact ⟨none, .nil _, retVal, hpc⟩
      | enter hi _ _ => cases hexit.symm.trans hi
      | leave hi _ => cases hexit.symm.trans hi
      | sleep hi => cases hexit.symm.trans hi
      | sdk hi _ => cases hexit.symm.trans hi
      | send hi _ => cases hexit.symm.trans hi
      | ask hi _ => cases hexit.symm.trans hi
      | deinit hi => cases hexit.symm.trans hi
    | some f =>
      cases transition_of_step hstep with
      | signal => exact ⟨some f, .nil _, hu⟩
      | enter hi _ _ =>
        exact ⟨some f, .nil _, hu.1, fun h => absurd h (not_early_of_test hi).1⟩
      | leave hi _ => exact ⟨some f, .nil _, hu.1, fun h => absurd h (not_early_of_test hi).2⟩
      | sleep hi => exact ⟨some f, .nil _, hu.1, fun h => absurd h (not_early_of_sleep hi)⟩
      | deinit hi => exact ⟨some f, .nil _, hu.1, fun h => absurd h (not_early_of_deinit hi)⟩
      | ask hi hask => exact livesAs_ask hi hask hu
      | @sdk c next callbacks ret mem gs hi hrun =>
        obtain ⟨t, hcalls, ht⟩ := (callbackFormat lib).run (t := f) hu.1 hrun
        refine ⟨some t, ?_, ht, fun h => absurd h (not_early_of_sdk hi ret)⟩
        rw [List.flatMap_append, List.flatMap_cons, eventStorage_own]
        simpa [eventStorage, inputUses] using formatLife_of_calls hcalls
      | @send next env ok mem gs hi hsend =>
        simp only [program, periodicSend] at hsend
        split at hsend
        · cases hsend
        · rename_i ret fs hreport
          cases hsend
          refine ⟨some f, ?_, hu.1, fun h => absurd h (not_early_of_send hi _)⟩
          rw [List.flatMap_append, List.flatMap_cons, eventStorage_own,
            storage_sendCurrentTime hreport]
          obtain rfl := hu.1
          refine .single ?_
          simp only [formatLife, formatCall, Memory.formatState, hreport]
          exact congrArg (fun fs => some (_, fs)) (List.append_nil gs).symm

theorem rel_start : (programFormat lib).rel start (some ⟨initialFormat, 0⟩) :=
  ⟨rfl, fun _ => rfl⟩

/-! ## What is reported -/

def callbackOccasions : Callback (TimeEnv Tm) Decoder → List (Occasion Tm)
  | .onConnected env => [.due env.now]
  | .onMessages msg decode => (received decode msg).toList.map .newFormat
  | .onDisconnect => []

/-- The occasions in an input of the program. -/
def occasions : ProgramInput Tm → List (Occasion Tm)
  | .returned callbacks _ => callbacks.flatMap callbackOccasions
  | .sent env => [.due env.now]
  | _ => []

def reported : Event Effect → List CString
  | .own (.report msg) => [msg]
  | _ => []

theorem occasions_callbacks (cbs : List (Callback (TimeEnv Tm) Decoder)) :
    ((cbs.flatMap callbackUses).map FormatUse.call).flatMap FormatUse.occasions =
      cbs.flatMap callbackOccasions := by
  rw [List.flatMap_map, List.flatMap_assoc]
  apply List.flatMap_congr
  intro cb _
  cases cb with
  | onConnected env => rfl
  | onMessages msg decode => exact List.append_nil _
  | onDisconnect => rfl

theorem occasions_eq (i : ProgramInput Tm) :
    (inputUses i).flatMap FormatUse.occasions = occasions i := by
  cases i with
  | returned callbacks ret => exact occasions_callbacks callbacks
  | answer a => cases a <;> rfl
  | _ => rfl

theorem reported_eq (e : Event Effect) :
    (eventStorage e).flatMap Effect.reports = reported e := by
  cases e with
  | own e => cases e <;> rfl
  | _ => rfl

/-- The program connects, is sent a format, connects again, and is stopped. -/
def connectAndStop : List (ProgramInput Unit) :=
  [.answer (.argv []), .answer (.mqttInit oprtOk), .returned [.onConnected workingClock,
    .onMessages ⟨.propertySet, some quoteText⟩ quoteDecode, .onDisconnect,
    .onConnected workingClock] oprtOk, .tick, .signal, .tick, .tick, .returned [] oprtOk, .tick,
    .answer .cleanup]

set_option maxRecDepth 4000 in
theorem connectAndStop_run : ∃ es s,
    Run (step (program plainStrftime)) start connectAndStop es s ∧ s.pc = .exited exitSuccess := by
  have hrun := @run_of_exec _ _ _ (step (program plainStrftime)) start _ connectAndStop _ rfl
  exact ⟨_, _, hrun, rfl⟩

section Runs
variable {is : List (ProgramInput Tm)} {es : List (Event Effect)} {s : State Pc Memory}
  (run : Run (step (program lib)) start is es s)
include run

/-- In every run the daemon reports what the reporter reports on the same occasions. -/
theorem reports_of_run : ∃ format,
    exec (reporter lib) (cstr "%F %T%z") (is.flatMap occasions) =
      some (format, es.flatMap reported) ∧
    ((∀ retVal, s.pc ≠ .exited retVal) → s.mem.format.format.text = format) := by
  have hstart : (lifeReports lib).rel (some ⟨initialFormat, 0⟩) (cstr "%F %T%z") := by
    rintro _ ⟨⟩
    rfl
  obtain ⟨format, hrun, u, hu, hformat⟩ := ((programFormat lib).comp (lifeReports lib)).run
    ⟨_, rel_start, hstart⟩ run
  simp only [occasions_eq, reported_eq] at hrun
  refine ⟨format, exec_of_run hrun, fun hpc => ?_⟩
  cases u with
  | none =>
    obtain ⟨retVal, hexit⟩ := hu
    exact absurd hexit (hpc retVal)
  | some f =>
    rw [← hformat f rfl, hu.1]
    rfl

end Runs
end

theorem reports_of_run_connectAndStop : ∃ es s format,
    Run (step (program plainStrftime)) start connectAndStop es s ∧
    exec (reporter plainStrftime) (cstr "%F %T%z") (connectAndStop.flatMap occasions) =
      some (format, es.flatMap reported) := by
  obtain ⟨es, s, hrun, _⟩ := connectAndStop_run
  obtain ⟨format, hexec, _⟩ := reports_of_run hrun
  exact ⟨es, s, format, hrun, hexec⟩

section
variable {Tm : Type} {lib : Strftime Tm}

/-! ## The strings of the messages -/

theorem formatLife_split {s : FormatState} {is : List (FormatUse Tm)} {es : List Effect}
    {u : Option FormatState} (run : Run (formatLife lib) (some s) is es u) :
    ∃ calls t fs, Run (formatCall lib) s calls fs t ∧
      (u = some t ∧ es = fs ∨ u = none ∧ es = fs ++ freeDateTimeFormat t.format) := by
  generalize hstart : some s = v at run
  induction run generalizing s with
  | nil =>
    subst hstart
    exact ⟨[], s, [], .nil s, Or.inl ⟨rfl, rfl⟩⟩
  | @cons v v' u i is es fs hstep run ih =>
    subst hstart
    obtain ⟨s', hs', hcase⟩ := formatLife_cases hstep
    obtain rfl := Option.some.inj hs'
    rcases hcase with ⟨c, t, rfl, rfl, hcall⟩ | ⟨rfl, rfl, rfl⟩
    · obtain ⟨calls, t', gs, hcalls, hend⟩ := ih rfl
      refine ⟨c :: calls, t', es ++ gs, .cons hcall hcalls, ?_⟩
      rcases hend with ⟨rfl, rfl⟩ | ⟨rfl, rfl⟩
      · exact Or.inl ⟨rfl, rfl⟩
      · exact Or.inr ⟨rfl, (List.append_assoc _ _ _).symm⟩
    · -- nothing happens after the tear-down
      cases run with
      | nil => exact ⟨[], s, [], .nil s, Or.inr ⟨rfl, List.append_nil _⟩⟩
      | cons h _ => cases h

/-- The strings that are neither freed nor in a tree that was deleted. -/
def live (s : State Pc Memory) : List HeapString :=
  match s.pc with
  | .exited _ => []
  | _ => held s.mem.format

/-- Over a whole run every string of every message is freed at most once, at most the current
format is still to be freed, and nothing is when the program exits. -/
theorem strings_of_run {is : List (ProgramInput Tm)} {es : List (Event Effect)}
    {s : State Pc Memory} (run : Run (step (program lib)) start is es s) :
    (made (es.flatMap eventStorage)).Nodup ∧
      (freed (es.flatMap eventStorage) ++ live s).Perm (made (es.flatMap eventStorage)) ∧
      .free .literal ∉ es.flatMap eventStorage := by
  obtain ⟨u, hrun, hu⟩ := (programFormat lib).run rel_start run
  obtain ⟨calls, t, fs, hcalls, ⟨rfl, hes⟩ | ⟨rfl, hes⟩⟩ := formatLife_split hrun
  · rw [hes]
    obtain ⟨rfl, hearly⟩ := hu
    have hlive : live s = held s.mem.format := by
      unfold live
      split
      · rename_i retVal hpc
        rw [hearly (hpc ▸ trivial)]
        rfl
      · rfl
    have hliteral := literal_kept_of_run hcalls (Or.inl rfl)
    refine ⟨made_nodup_of_run hcalls, ?_, fun h => hliteral (List.mem_append_left _ h)⟩
    rw [hlive]
    exact freed_perm_of_run hcalls rfl
  · rw [hes]
    obtain ⟨retVal, hpc⟩ := hu
    refine ⟨?_, ?_, literal_kept_of_run hcalls (Or.inl rfl)⟩
    · rw [made_append, made_freeDateTimeFormat, List.append_nil]
      exact made_nodup_of_run hcalls
    · have hperm := freed_torn_down_of_run hcalls rfl
      simp only [live, hpc, List.append_nil]
      rw [made_append, made_freeDateTimeFormat, List.append_nil]
      exact hperm

end

theorem strings_of_run_connectAndStop : ∃ es s,
    Run (step (program plainStrftime)) start connectAndStop es s ∧
    (freed (es.flatMap eventStorage)).Perm (made (es.flatMap eventStorage)) := by
  obtain ⟨es, s, hrun, hpc⟩ := connectAndStop_run
  have hperm := (strings_of_run hrun).2.1
  rw [show live s = [] by rw [live, hpc], List.append_nil] at hperm
  exact ⟨es, s, hrun, hperm⟩
end TuyaDaemon.Standalone
