import TuyaDaemon.Openwrt.Main
import TuyaDaemon.SetUp

/-!
# No periodic work of the OpenWrt daemon before the connection is up

`connect_to_tuya` returns 0 when `tuya_mqtt_connected` answers true, and also when the
flag goes down; then the head of `main_loop` does not let the daemon in.
-/

namespace TuyaDaemon.Openwrt

set_option autoImplicit false

open Daemon EventMachine

def stage : Pc → Stage
  | .uciAlloc => .dialing
  | .options => .dialing
  | .mqttInit _ => .dialing
  | .ubusConnect => .dialing
  | .connect => .dialing
  | .retryHead _ _ ret => if ret = oprtOk then .initialised else .dialing
  | .retrySleep _ _ => .dialing
  | .retryConnect _ _ => .dialing
  | .setupConnected => .initialised
  | .setupHead => .initialised
  | .setupLoop => .initialised
  | .mainHead _ => .initialised
  | .mainLoop _ => .initialised
  | .mainSleep _ => .initialised
  | .mainSend _ => .initialised
  | _ => .over

theorem instr_keeps (pc : Pc) : (instr pc).Keeps stage (stage pc) := by
  cases pc with
  | uciAlloc =>
    intro _ _ _ _ _ h
    rcases allocUci_cases h with ⟨rfl, _⟩ | ⟨_, rfl, _⟩
    · exact Or.inr rfl
    · exact Or.inl rfl
  | options =>
    intro _ _ _ _ _ h
    rcases (loadOptions_cases h).1 with rfl | ⟨_, rfl⟩
    · exact Or.inr rfl
    · exact Or.inl rfl
  | mqttInit o =>
    intro _ _ _ _ _ h
    rcases initMqtt_cases h with ⟨_, _, _, _, ⟨rfl, _⟩ | ⟨rfl, _⟩⟩
    · exact Or.inr rfl
    · exact Or.inl rfl
  | ubusConnect =>
    intro _ _ _ _ _ h
    rcases connectUbus_cases h with ⟨rfl, _⟩ | ⟨_, rfl, _⟩
    · exact Or.inr rfl
    · exact Or.inl rfl
  | connect => exact ⟨rfl, fun _ => rfl⟩
  | retryHead i sleepSeconds ret =>
    by_cases hret : ret = oprtOk
    · simp [Instr.Keeps, instr, stage, hret, Stage.Leads]
    · simp [Instr.Keeps, instr, stage, hret, Stage.Leads]
  | retrySleep i sleepSeconds => exact Or.inl rfl
  | retryConnect i sleepSeconds => exact ⟨rfl, fun _ => rfl⟩
  | setupConnected =>
    intro _ _ _ _ _ h
    rcases (askConnected_cases h).2 with ⟨rfl, _⟩ | ⟨rfl, _⟩
    · exact Or.inl rfl
    · exact Or.inl rfl
  | setupHead => exact ⟨fun _ => Or.inl rfl, Or.inl rfl⟩
  | setupLoop =>
    refine ⟨by decide, fun ret => ?_⟩
    by_cases hret : ret = oprtOk <;> simp [stage, hret, Stage.Leads]
  | mainHead c => exact ⟨fun _ => Or.inl rfl, Or.inr rfl⟩
  | mainLoop c =>
    refine ⟨by simp [stage], fun ret => ?_⟩
    by_cases hret : ret = oprtOk <;> simp [stage, hret, Stage.Leads]
  | mainSleep c => exact Or.inl rfl
  | mainSend c =>
    intro ok
    by_cases hc : c + 1 = 10 <;> cases ok <;> simp [stage, hc, Stage.Leads]
  | cleanupMqtt retVal => exact ⟨by simp [stage], fun _ => Or.inl rfl⟩
  | mqttDeinit retVal => exact Or.inl rfl
  | cleanupEnd retVal =>
    intro _ _ _ _ _ h
    obtain ⟨rfl, _⟩ := cleanUp_cases h
    exact Or.inl rfl
  | exited retVal => exact trivial

def dial {Attr Data : Type} (lib : Blobmsg Attr Data) : Dial (program lib) where
  stage := stage
  keeps := instr_keeps

/-- The body of `main_loop` is running, or its head is about to let the daemon in. -/
def InMainLoop (s : State Pc Memory) : Prop :=
  match s.pc with
  | .mainHead _ => s.keepRunning = true
  | .mainLoop _ => True
  | .mainSleep _ => True
  | .mainSend _ => True
  | _ => False

theorem InMainLoop.stage {s : State Pc Memory} (h : InMainLoop s) :
    Openwrt.stage s.pc = .initialised := by
  obtain ⟨pc, k, m⟩ := s
  cases pc <;> first
    | rfl
    | cases h

section
variable {Attr Data : Type} {lib : Blobmsg Attr Data} {s t : State Pc Memory}
  {i : Input (UbusEnv Attr) (ActionEnv Attr) (UbusEnv Attr) Ask} {es : List (Event Effect)}

/-- The flag is never set again, so there is one way into `main_loop`. -/
theorem inMainLoop_of_step (h : step (program lib) s i = some (t, es)) (ht : InMainLoop t) :
    InMainLoop s ∨ (s.pc = .setupConnected ∧ es = [.own (.mqttConnected true)]) := by
  revert ht
  refine step_ensures (Q := fun t es => InMainLoop t → InMainLoop s ∨
    (s.pc = .setupConnected ∧ es = [.own (.mqttConnected true)])) h ?_ ?_
  · intro ht
    obtain ⟨pc, k, m⟩ := s
    cases pc with
    | mainHead c => cases ht
    | _ => exact Or.inl ht
  · obtain ⟨pc, k, m⟩ := s
    cases pc with
    | uciAlloc =>
      intro _ _ _ _ hask ht
      rcases allocUci_cases hask with ⟨rfl, _⟩ | ⟨_, rfl, _⟩ <;> cases ht
    | options =>
      intro _ _ _ _ hask ht
      rcases (loadOptions_cases hask).1 with rfl | ⟨_, rfl⟩ <;> cases ht
    | mqttInit o =>
      intro _ _ _ _ hask ht
      rcases initMqtt_cases hask with ⟨_, _, _, _, ⟨rfl, _⟩ | ⟨rfl, _⟩⟩ <;> cases ht
    | ubusConnect =>
      intro _ _ _ _ hask ht
      rcases connectUbus_cases hask with ⟨rfl, _⟩ | ⟨_, rfl, _⟩ <;> cases ht
    | connect => exact fun _ _ _ _ _ ht => ht.elim
    | retryHead j sleepSeconds ret =>
      refine ⟨fun _ _ ht => ht.elim, fun _ ht => ?_⟩
      by_cases hret : ret = oprtOk <;> simp [InMainLoop, hret] at ht
    | retrySleep j sleepSeconds => exact fun ht => ht.elim
    | retryConnect j sleepSeconds => exact fun _ _ _ _ _ ht => ht.elim
    | setupConnected =>
      intro _ _ _ _ hask ht
      rcases (askConnected_cases hask).2 with ⟨_, rfl⟩ | ⟨rfl, _⟩
      · exact Or.inr ⟨rfl, rfl⟩
      · cases ht
    | setupHead =>
      refine ⟨fun _ _ ht => ht.elim, fun hleave ht => ?_⟩
      change k = true at ht
      rw [ht] at hleave
      cases hleave
    | setupLoop =>
      intro _ ret _ _ _ ht
      by_cases hret : ret = oprtOk <;> simp [InMainLoop, hret] at ht
    | mainHead c => exact ⟨fun _ hk _ => Or.inl hk, fun _ ht => ht.elim⟩
    | mainLoop c => exact fun _ _ _ _ _ _ => Or.inl trivial
    | mainSleep c => exact fun _ => Or.inl trivial
    | mainSend c => exact fun _ _ _ _ _ _ => Or.inl trivial
    | cleanupMqtt retVal => exact fun _ _ _ _ _ ht => ht.elim
    | mqttDeinit retVal => exact fun ht => ht.elim
    | cleanupEnd retVal =>
      intro _ _ _ _ hask ht
      obtain ⟨rfl, _⟩ := cleanUp_cases hask
      cases ht
    | exited retVal => trivial

theorem inMainLoop_of_iteration {xs ys : List (Event Effect)}
    (h : step (program lib) s i = some (t, es)) (heq : es = xs ++ .iteration .main :: ys) :
    InMainLoop s ∧ xs = [] := by
  obtain ⟨pc, k, m⟩ := s
  have hmem : .iteration .main ∈ es := by simp [heq]
  cases transition_of_step h with
  | @enter l condition enter leave hi hc hk =>
    obtain ⟨rfl, hevent⟩ : xs = [] ∧ Event.iteration l = .iteration .main := by
      rcases xs with _ | ⟨x, xs⟩
      · exact ⟨rfl, (List.cons.inj heq).1⟩
      · simp at heq
    obtain rfl := Event.iteration.inj hevent
    cases pc with
    | mainHead c => exact ⟨hk, rfl⟩
    | _ => cases hi
  | _ => simp at hmem

/-- The answer of `tuya_mqtt_connected` was true at some time since `tuya_mqtt_connect`
returned OPRT_OK, and it was not called again. -/
def AnsweredSinceConnect (es : List (Event Effect)) : Prop :=
  ∃ a b, SinceConnect es a b ∧ .own (.mqttConnected true) ∈ b

/-- What holds of every state and the events that led to it. -/
structure SetUpDone (lib : Blobmsg Attr Data) (s : State Pc Memory) (es : List (Event Effect)) :
    Prop where
  dialed : (dial lib).Dialed s es
  answered : InMainLoop s → AnsweredSinceConnect es

theorem SetUpDone.keep {h : List (Event Effect)} (hs : SetUpDone lib s h)
    (hstep : step (program lib) s i = some (t, es)) : SetUpDone lib t (h ++ es) := by
  have hdialed := hs.dialed.keep hstep
  refine ⟨hdialed, ?_⟩
  intro ht
  rcases inMainLoop_of_step hstep ht with hin | ⟨hpc, rfl⟩
  · obtain ⟨a, b, ⟨heq, _⟩, hans⟩ := hs.answered hin
    refine ⟨a, b ++ es, hdialed.settled.sinceConnect ?_, List.mem_append_left _ hans⟩
    rw [heq, List.append_assoc, List.cons_append]
  · have hstage : (dial lib).stage s.pc = .initialised := by
      rw [hpc]
      rfl
    obtain ⟨a, b, heq⟩ := List.append_of_mem (hs.dialed.initialised hstage)
    refine ⟨a, b ++ [.own (.mqttConnected true)], hdialed.settled.sinceConnect ?_, by simp⟩
    rw [heq, List.append_assoc, List.cons_append]

theorem setUpDone_start (lib : Blobmsg Attr Data) : SetUpDone lib start [] :=
  ⟨Dial.Dialed.of_start rfl, False.elim⟩

/-- Every iteration of `main_loop` comes after a `tuya_mqtt_connect` that succeeded, was the
last one, and was followed by a positive answer of `tuya_mqtt_connected`. -/
theorem main_loop_after_connected
    {is : List (Input (UbusEnv Attr) (ActionEnv Attr) (UbusEnv Attr) Ask)}
    (run : Run (step (program lib)) start is es s) :
    Precedes AnsweredSinceConnect (.iteration .main) es := by
  refine run.precedes (P := SetUpDone lib) (fun hs hstep => hs.keep hstep) ?_ (setUpDone_start lib)
  intro s i t h es xs ys hs hstep heq
  obtain ⟨hin, rfl⟩ := inMainLoop_of_iteration hstep heq
  rw [List.append_nil]
  exact hs.answered hin

end

/-- Options and connections are there at once, the connection is up after one set-up turn. -/
def upAfterOneTurn : List (Input (UbusEnv Blob) (ActionEnv Blob) (UbusEnv Blob) Ask) :=
  [.answer (.uciAllocContext (some ⟨1⟩)),
    .answer (.options (fun _ _ _ => (0, ⟨true, some ⟨.string, cstr "7"⟩⟩)) ⟨false, none⟩),
    .answer (.mqttInit oprtOk), .answer (.ubusConnect (some ⟨5⟩)), .returned [] oprtOk, .tick,
    .answer (.mqttConnected false), .tick, .returned [] oprtOk, .answer (.mqttConnected true),
    .tick]

theorem main_loop_after_connected_once :
    ∃ es t, Run (step (program Blob.blobmsg)) start upAfterOneTurn es t ∧
      es.getLast? = some (.iteration .main) ∧ AnsweredSinceConnect es.dropLast := by
  have hrun := @run_of_exec _ _ _ (step (program Blob.blobmsg)) start _ upAfterOneTurn _ rfl
  exact ⟨_, _, hrun, rfl, (main_loop_after_connected hrun).of_getLast rfl⟩

end TuyaDaemon.Openwrt
