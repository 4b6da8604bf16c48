import TuyaDaemon.Environment
import TuyaDaemon.Standalone.Main
import TuyaDaemon.Standalone.PropertySet
import TuyaDaemon.Standalone.TimeReport

/-!
# What brings the stand-alone daemon down

A step that faults is not there. Whatever the environment may do next, the daemon has a step
for it, unless a `PROPERTY_SET` message comes with a payload that the handler does not expect.
-/

namespace TuyaDaemon.Standalone

set_option autoImplicit false

open Daemon EventMachine

/-- The handler of this message dereferences NULL. -/
def Fatal (msg : TuyalinkMessage) (decode : Decoder) : Prop :=
  msg.type = .propertySet ∧ (msg.dataString.bind decode = none ∨
    ∃ e es, msg.dataString.bind decode = some (.array (e :: es)))

/-! ## The handlers -/

section
variable {decode : Decoder} {data : Option CString} {msg : TuyalinkMessage}

theorem onMessages_completes_iff (d : DateTimeFormat) (next : Nat) :
    (∃ r, onMessages decode msg d next = .ok r) ↔ ¬ Fatal msg decode := by
  by_cases htype : msg.type = .propertySet
  · have hrun : onMessages decode msg d next = propertySet decode msg.dataString d next := by
      rw [onMessages, htype]
    rw [hrun]
    constructor
    · intro hok hfatal
      obtain ⟨r, hr⟩ := hok
      rcases hfatal.2 with hnone | ⟨e, es, harray⟩
      · rw [propertySet_of_refused hnone] at hr
        cases hr
      · rw [propertySet_of_array harray] at hr
        cases hr
    · intro hsafe
      cases hdata : msg.dataString.bind decode with
      | none => exact absurd ⟨htype, Or.inl hdata⟩ hsafe
      | some j =>
        have hj : ∀ e es, j ≠ .array (e :: es) := by
          rintro e es rfl
          exact hsafe ⟨htype, Or.inr ⟨e, es, hdata⟩⟩
        obtain ⟨d', next', es, hrun, _⟩ := handled hdata hj d next
        exact ⟨_, hrun⟩
  · have hrun : onMessages decode msg d next = .ok (d, next, []) :=
      (onMessages_of_other htype d next).2
    exact ⟨fun _ hfatal => htype hfatal.1, fun _ => ⟨_, hrun⟩⟩

end

section
variable {Tm : Type} {lib : Strftime Tm}

def FatalCallback : Callback (TimeEnv Tm) Decoder → Prop
  | .onMessages msg decode => Fatal msg decode
  | _ => False

theorem callback_completes_iff (m : Memory) {linked : Bool}
    {cb : Callback (TimeEnv Tm) Decoder} (hl : cb.link m.linked = some linked) :
    (∃ m' es, callback lib m cb = some (m', es)) ↔ ¬ FatalCallback cb := by
  cases cb with
  | onConnected env =>
    obtain ⟨ret, es, hsend, _⟩ := sendCurrentTime_outcome lib env m.format.format.text
    have hrun : callback lib m (.onConnected env) =
        some ({ m with linked }, .onConnected :: es) := by
      simp only [callback, hl, hsend]
    exact ⟨fun _ => id, fun _ => ⟨_, _, hrun⟩⟩
  | onMessages msg decode =>
    rw [FatalCallback, ← onMessages_completes_iff m.format m.next]
    simp only [callback, hl]
    constructor
    · intro h
      obtain ⟨m', es, hrun⟩ := h
      split at hrun
      · cases hrun
      · rename_i h
        exact ⟨_, h⟩
    · intro h
      obtain ⟨r, hr⟩ := h
      rw [hr]
      exact ⟨_, _, rfl⟩
  | onDisconnect =>
    have hrun : callback lib m .onDisconnect = some ({ m with linked }, [.onDisconnect]) := by
      simp only [callback, hl]
    exact ⟨fun _ => id, fun _ => ⟨_, _, hrun⟩⟩

theorem linked_callback {m m' : Memory} {cb : Callback (TimeEnv Tm) Decoder}
    {es : List Effect} (h : callback lib m cb = some (m', es)) :
    cb.link m.linked = some m'.linked := by
  unfold callback at h
  cases hl : cb.link m.linked with
  | none =>
    simp only [hl] at h
    cases h
  | some linked =>
    simp only [hl] at h
    cases cb with
    | onConnected env =>
      simp only at h
      split at h
      · cases h
      · cases h
        rfl
    | onMessages msg decode =>
      simp only at h
      split at h
      · cases h
      · cases h
        rfl
    | onDisconnect =>
      cases h
      rfl

/-! ## The program -/

/-- The answers to a call that `main` makes once. -/
inductive Awaits : Pc → Ask → Prop where
  | argpParse {argv : List ArgvItem} : Awaits .argpParse (.argv argv)
  | argpStop {stop : ArgpStop} : Awaits .argpParse (.argpStop stop)
  | becomeDaemon {arguments : Args} {ret : Int} :
      Awaits (.becomeDaemon arguments) (.becomeDaemon ret)
  | mqttInit {arguments : Args} {ret : Int} : Awaits (.mqttInit arguments) (.mqttInit ret)
  | freeFormat {retVal : Int} : Awaits (.freeFormat retVal) .cleanup

def environment : Environment Pc Memory Ask := ⟨Awaits, Memory.linked⟩

theorem answer_of_awaits {pc : Pc} {a : Ask} (ha : Awaits pc a) :
    ∃ next, instr pc = .ask next ∧ ∀ m, ∃ r, next a m = some r := by
  cases ha with
  | @argpParse argv =>
    refine ⟨_, rfl, fun m => ?_⟩
    cases hp : parseArguments argv with
    | none => exact ⟨_, by simp only [readArguments, hp]; rfl⟩
    | some arguments => exact ⟨_, by simp only [readArguments, hp]; rfl⟩
  | argpStop => exact ⟨_, rfl, fun _ => ⟨_, rfl⟩⟩
  | @becomeDaemon arguments ret =>
    refine ⟨_, rfl, fun m => ?_⟩
    by_cases hret : ret = 0 <;> simp [checkDaemon, hret]
  | @mqttInit arguments ret =>
    refine ⟨_, rfl, fun m => ?_⟩
    by_cases hret : ret = oprtOk <;> simp [initTuya, hret]
  | freeFormat => exact ⟨_, rfl, fun _ => ⟨_, rfl⟩⟩

theorem awaits_of_ask {pc : Pc} {next : Ask → Memory → Outcome} (h : instr pc = .ask next) :
    ∃ a, Awaits pc a := by
  cases pc with
  | argpParse => exact ⟨.argv [], .argpParse⟩
  | becomeDaemon arguments => exact ⟨.becomeDaemon 0, .becomeDaemon⟩
  | mqttInit arguments => exact ⟨.mqttInit oprtOk, .mqttInit⟩
  | freeFormat retVal => exact ⟨_, .freeFormat⟩
  | _ => cases h

def endurance (lib : Strftime Tm) : Endurance (program lib) environment where
  fatal := FatalCallback
  callback := callback_completes_iff _
  link := linked_callback
  sends env m := by
    obtain ⟨ret, es, hsend, _⟩ := sendCurrentTime_outcome lib env m.format.format.text
    exact ⟨_, by simp only [program, periodicSend, hsend]; rfl⟩
  answers := answer_of_awaits
  asked := awaits_of_ask

variable {is : List (Input (TimeEnv Tm) Decoder (TimeEnv Tm) Ask)} {es : List (Event Effect)}
  {s : State Pc Memory}

/-- A run goes on, whatever the environment does, until a fatal message arrives. -/
theorem crashes_of_run (run : Run (step (program lib)) start is es s) :
    (∀ cb ∈ is.flatMap arriving, ¬ FatalCallback cb) ∧
      ∀ i, Offered (program lib) environment s i →
        ((∃ t fs, step (program lib) s i = some (t, fs)) ↔
          ∀ cb ∈ arriving i, ¬ FatalCallback cb) :=
  ⟨(endurance lib).safe_of_run run, fun _ => (endurance lib).step_iff⟩

end

/-- The array arrives while the first connection is made. -/
def arrayArrives : Input (TimeEnv Unit) Decoder (TimeEnv Unit) Ask :=
  .returned [.onConnected ⟨0, fun _ => some (), fun _ => 0⟩,
    .onMessages ⟨.propertySet, some arrayText⟩ arrayDecode] oprtOk

theorem fatal_arrayArrives : ∃ cb ∈ arriving arrayArrives, FatalCallback cb :=
  ⟨_, List.mem_cons_of_mem _ List.mem_cons_self, rfl, Or.inr ⟨_, _, rfl⟩⟩

theorem crashes_of_run_arrayArrives : ∃ es s,
    Run (step (program plainStrftime)) start
      [.answer (.argv []), .answer (.mqttInit oprtOk)] es s ∧
      Offered (program plainStrftime) environment s arrayArrives ∧
      step (program plainStrftime) s arrayArrives = none := by
  have hrun := @run_of_exec _ _ _ (step (program plainStrftime)) start _
    [.answer (.argv []), .answer (.mqttInit oprtOk)] _ rfl
  have hoffered : Offered (program plainStrftime) environment
      ⟨.connect, true, ⟨false, initialFormat, 0⟩⟩ arrayArrives := .sdk rfl rfl
  have hiff := (crashes_of_run hrun).2 arrayArrives hoffered
  refine ⟨_, _, hrun, hoffered, ?_⟩
  rw [Option.eq_none_iff_forall_ne_some]
  intro r hstep
  obtain ⟨cb, hcb, hfatal⟩ := fatal_arrayArrives
  exact hiff.mp ⟨r.1, r.2, hstep⟩ cb hcb hfatal

end TuyaDaemon.Standalone
