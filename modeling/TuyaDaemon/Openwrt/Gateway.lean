import TuyaDaemon.Simulation
import TuyaDaemon.Openwrt.Interference
import TuyaDaemon.Openwrt.SetUp

/-!
# The OpenWrt daemon as a gateway

What the daemon is for: it turns an occasion into one request on the bus, and the last reply
to it into one report to Tuya. The code does just that for as long as an invocation that
succeeds brings a reply; without one it may report what its stack held before the call.
-/

namespace TuyaDaemon.Openwrt

set_option autoImplicit false

open Daemon EventMachine

/-- What leaves the daemon. -/
inductive Output where
  | request (r : Request)
  | report (msg : CString)
  deriving DecidableEq, Repr

/-- A report of the memory is due, or Tuya sends the value of an action, while the bus and the
SDK answer as `env` says. -/
inductive Occasion (Attr : Type) where
  | memoryDue (env : UbusEnv Attr)
  | action (value : Option Json) (undefinedCast : Rat → UInt32) (env : UbusEnv Attr)

/-! ## The gateway -/

def pinCommand? (undefinedCast : Rat → UInt32) (turnOn : Bool) :
    Option Json → Option Json → Option Sender
  | some (.string device), some (.number q) =>
    some (.controlDevicePin turnOn device (castUint32 undefinedCast q))
  | _, _ => none

def command? (undefinedCast : Rat → UInt32) (action : CString) (device pin : Option Json) :
    Option Sender :=
  if action = cstr "list_devices" then some .sendConnectedDevicesList
  else if action = cstr "turn_on_pin" then pinCommand? undefinedCast true device pin
  else if action = cstr "turn_off_pin" then pinCommand? undefinedCast false device pin
  else none

/-- The command in the value of an action, by the three lookups. -/
def commandOf (undefinedCast : Rat → UInt32) (value : Option Json) : Option Sender :=
  match (lookedUp value).1 with
  | some (.string action) => command? undefinedCast action (lookedUp value).2.1 (lookedUp value).2.2
  | _ => none

namespace Occasion
variable {Attr : Type}

def env : Occasion Attr → UbusEnv Attr
  | memoryDue env => env
  | action _ _ env => env

/-- What the occasion asks for. -/
def sender? : Occasion Attr → Option Sender
  | memoryDue _ => some .sendMemoryInfo
  | action value undefinedCast _ => commandOf undefinedCast value

end Occasion

/-- An invocation that is made and succeeds has brought a reply. -/
def Answered {Attr : Type} (o : Occasion Attr) : Prop :=
  ∀ s, o.sender? = some s → s.Found o.env → s.Built o.env → s.InvokeOk o.env →
    s.replies o.env ≠ []

/-- One request and its report. -/
def exchange {Attr : Type} (env : UbusEnv Attr) (s : Sender) (text : Option CString) :
    List Output :=
  if s.Found env ∧ s.Built env then
    .request (s.method, s.request) :: text.toList.map .report
  else []

section
variable {Attr Data : Type} (lib : Blobmsg Attr Data)

/-- The text of the last reply, if that is valid. -/
def answerText (env : UbusEnv Attr) (s : Sender) : Option CString :=
  if s.InvokeOk env then
    ((s.replies env).getLast?.bind (s.select lib)).map lib.blobmsgFormatJson
  else none

def reaction (o : Occasion Attr) : List Output :=
  o.sender?.toList.flatMap fun s => exchange o.env s (answerText lib o.env s)

/-! What the code does instead. -/

/-- The text that the code finds in the response: without a reply, what was on the stack. -/
def responseText (env : UbusEnv Attr) (s : Sender) : Option CString :=
  if s.InvokeOk env ∧ s.replies env = [] then
    if env.stack.requestSuccessful then some env.stack.dataJson.text else none
  else answerText lib env s

def conduct (o : Occasion Attr) : List Output :=
  o.sender?.toList.flatMap fun s => exchange o.env s (responseText lib o.env s)

variable {lib}

theorem responseText_of_replies {env : UbusEnv Attr} {s : Sender}
    (h : s.InvokeOk env → s.replies env ≠ []) : responseText lib env s = answerText lib env s :=
  if_neg fun hnone => h hnone.1 hnone.2

/-- With a reply to every invocation the code is the gateway. -/
theorem conduct_eq_reaction {o : Occasion Attr} (h : Answered o) :
    conduct lib o = reaction lib o := by
  unfold conduct reaction
  cases hs : o.sender? with
  | none => rfl
  | some s =>
    simp only [Option.toList_some, List.flatMap_singleton, exchange]
    by_cases hfb : s.Found o.env ∧ s.Built o.env
    · rw [responseText_of_replies (h s hs hfb.1 hfb.2)]
    · rw [if_neg hfb, if_neg hfb]

end

/-! ## The commands -/

theorem pinCommand?_eq_some_iff (undefinedCast : Rat → UInt32) (turnOn : Bool)
    (device pin : Option Json) (s : Sender) :
    pinCommand? undefinedCast turnOn device pin = some s ↔
      ∃ dev q, device = some (.string dev) ∧ pin = some (.number q) ∧
        s = .controlDevicePin turnOn dev (castUint32 undefinedCast q) := by
  constructor
  · intro h
    unfold pinCommand? at h
    split at h
    · cases h
      exact ⟨_, _, rfl, rfl, rfl⟩
    · cases h
  · rintro ⟨dev, q, rfl, rfl, rfl⟩
    rfl

theorem command?_eq_some_iff (undefinedCast : Rat → UInt32) (action : CString)
    (device pin : Option Json) (s : Sender) :
    command? undefinedCast action device pin = some s ↔
      (action = cstr "list_devices" ∧ s = .sendConnectedDevicesList) ∨
      ∃ turnOn dev q, action = (if turnOn then cstr "turn_on_pin" else cstr "turn_off_pin") ∧
        device = some (.string dev) ∧ pin = some (.number q) ∧
        s = .controlDevicePin turnOn dev (castUint32 undefinedCast q) := by
  have hlistOn : cstr "turn_on_pin" ≠ cstr "list_devices" := by decide
  have hlistOff : cstr "turn_off_pin" ≠ cstr "list_devices" := by decide
  have honOff : cstr "turn_on_pin" ≠ cstr "turn_off_pin" := by decide
  unfold command?
  by_cases hl : action = cstr "list_devices"
  · rw [if_pos hl]
    constructor
    · intro h
      exact Or.inl ⟨hl, (Option.some.inj h).symm⟩
    · rintro (⟨_, rfl⟩ | ⟨turnOn, _, _, haction, _⟩)
      · rfl
      · cases turnOn with
        | true => exact absurd (haction.symm.trans hl) hlistOn
        | false => exact absurd (haction.symm.trans hl) hlistOff
  · rw [if_neg hl]
    by_cases hon : action = cstr "turn_on_pin"
    · rw [if_pos hon, pinCommand?_eq_some_iff]
      simp [hon, honOff, hlistOn]
    · rw [if_neg hon]
      by_cases hoff : action = cstr "turn_off_pin"
      · rw [if_pos hoff, pinCommand?_eq_some_iff]
        simp [hoff, honOff.symm, hlistOff]
      · rw [if_neg hoff]
        simp [hl, hon, hoff]

/-- The gateway obeys the same commands as `execute_action`. -/
theorem commandOf_eq_some_iff {full : Option CJson} {value : Option Json}
    (h : CJson.Represents full value) (undefinedCast : Rat → UInt32) (s : Sender) :
    commandOf undefinedCast value = some s ↔ Requested undefinedCast full s := by
  have haction := stringIs_of_represents (h.getObjectItem (cstr "actionCode"))
  have hcommand : commandOf undefinedCast value = some s ↔
      ∃ action, (lookedUp value).1 = some (.string action) ∧
        command? undefinedCast action (lookedUp value).2.1 (lookedUp value).2.2 = some s := by
    unfold commandOf
    constructor
    · intro hs
      split at hs
      · rename_i action haction
        exact ⟨action, haction, hs⟩
      · cases hs
    · rintro ⟨action, hl, hs⟩
      rw [hl]
      exact hs
  rw [hcommand]
  simp only [command?_eq_some_iff]
  cases s with
  | sendMemoryInfo => simp [Requested]
  | sendConnectedDevicesList =>
    simp only [Requested, haction]
    constructor
    · rintro ⟨action, hl, ⟨rfl, _⟩ | ⟨_, _, _, _, _, _, h⟩⟩
      · exact hl
      · cases h
    · intro hl
      exact ⟨_, hl, Or.inl ⟨rfl, trivial⟩⟩
  | controlDevicePin turnOn device pin =>
    rw [requested_iff_lookedUp h]
    constructor
    · rintro ⟨action, hl, ⟨_, h⟩ | ⟨_, dev, q, rfl, hdev, hpin, h⟩⟩
      · cases h
      · cases h
        exact ⟨hl, hdev, q, hpin, rfl⟩
    · rintro ⟨hl, hdev, q, hpin, rfl⟩
      exact ⟨_, hl, Or.inr ⟨turnOn, device, q, rfl, hdev, hpin, rfl⟩⟩

/-! ## The exchanges -/

def UbusEvent.output : UbusEvent → List Output
  | invoke _ _ method request _ => [.request (method, request)]
  | report msg => [.report msg]
  | _ => []

def Effect.output : Effect → List Output
  | ubus e => e.output
  | _ => []

def output : Event Effect → List Output
  | .own e => e.output
  | _ => []

namespace Sender
variable {Attr Data : Type} (lib : Blobmsg Attr Data) (env : UbusEnv Attr)
  (ctx : Option UbusContext) (s : Sender) (next : Nat)

theorem responseText_eq :
    (s.sent lib env next).map HeapString.text = responseText lib env s := by
  unfold responseText answerText
  by_cases hok : s.InvokeOk env
  · rcases List.eq_nil_or_concat (s.replies env) with hnil | ⟨msgs, last, hmsgs⟩
    · rw [if_pos ⟨hok, hnil⟩]
      simp only [sent, response, hok, hnil, List.foldl_nil, true_and]
      split <;> rfl
    · rw [List.concat_eq_append] at hmsgs
      have hne : s.replies env ≠ [] := by simp [hmsgs]
      rw [s.sent_of_replies lib env next hmsgs, if_pos hok, if_neg fun h => hne h.2, if_pos hok,
        hmsgs, List.getLast?_concat, Option.bind_some, Option.map_map]
      rfl
  · rw [if_neg fun h => hok h.1, if_neg hok]
    simp only [sent, hok, false_and, if_false, Option.map_none]

theorem output_prologue :
    (s.prologue lib env ctx next).flatMap UbusEvent.output = [.request (s.method, s.request)] := by
  have hformat : ∀ ps : List HeapString,
      (ps.map UbusEvent.formatJson).flatMap UbusEvent.output = [] := by
    intro ps
    simp [List.flatMap_map, UbusEvent.output]
  simp only [prologue, List.flatMap_append, hformat]
  cases s <;> rfl

theorem output_epilogue (p : Option HeapString) :
    (epilogue p).flatMap UbusEvent.output =
      (p.map HeapString.text).toList.map .report := by
  cases p <;> rfl

/-- What leaves the daemon does not depend on the handle or on the heap. -/
theorem output_run : (s.run lib env ctx next).2.events.flatMap UbusEvent.output =
    exchange env s (responseText lib env s) := by
  unfold exchange
  by_cases hf : s.Found env
  · by_cases hb : s.Built env
    · rw [run_of_built lib env ctx s next hf hb, if_pos ⟨hf, hb⟩]
      simp only [List.flatMap_append, output_prologue, output_epilogue, responseText_eq]
      rfl
    · rw [run_of_not_built lib env ctx s next hf hb, if_neg fun h => hb h.2]
      rfl
  · rw [run_of_not_found lib env ctx s next hf, if_neg fun h => hf h.1]
    rfl

end Sender

section
variable {Attr Data : Type} {lib : Blobmsg Attr Data}

theorem output_ubus (es : List UbusEvent) :
    (es.map Effect.ubus).flatMap Effect.output = es.flatMap UbusEvent.output := by
  rw [List.flatMap_map]
  rfl

theorem output_own (es : List Effect) :
    (es.map Event.own).flatMap output = es.flatMap Effect.output := by
  rw [List.flatMap_map]
  rfl

/-- `execute_action` performs the command that the gateway finds in the value. -/
theorem executeAction_command (env : ActionEnv Attr) (ctx : Option UbusContext)
    (dataString : Option CString) (next : Nat) :
    executeAction lib env ctx dataString next = .ok (performed lib ctx env dataString next
      (commandOf env.undefinedCast (dataString.bind env.decode))) := by
  obtain ⟨op, hrun, hop⟩ := executeAction_performed lib env ctx dataString next
  have hcommand : commandOf env.undefinedCast (dataString.bind env.decode) = op := by
    apply Option.ext
    intro s
    rw [commandOf_eq_some_iff (CJson.represents_parse _ next _), hop]
  rw [hrun, hcommand]

theorem output_executeAction {env : ActionEnv Attr} {ctx : Option UbusContext}
    {dataString : Option CString} {next n : Nat} {es : List Effect}
    (h : executeAction lib env ctx dataString next = .ok (n, es)) :
    es.flatMap Effect.output =
      conduct lib (.action (dataString.bind env.decode) env.undefinedCast env.ubus) := by
  rw [executeAction_command] at h
  cases h
  simp only [List.cons_append, List.flatMap_cons, List.flatMap_append, conduct,
    Occasion.sender?]
  cases commandOf env.undefinedCast (dataString.bind env.decode) with
  | none => rfl
  | some s =>
    simp only [attempt, output_ubus, Sender.output_run, Option.toList_some,
      List.flatMap_singleton]
    exact List.append_nil _

/-! ## The program -/

def callbackOccasions : Callback (UbusEnv Attr) (ActionEnv Attr) → List (Occasion Attr)
  | .onConnected env => [.memoryDue env]
  | .onMessages msg env =>
    match msg.type with
    | .actionExecute => [.action (msg.dataString.bind env.decode) env.undefinedCast env.ubus]
    | _ => []
  | .onDisconnect => []

abbrev ProgramInput (Attr : Type) := Input (UbusEnv Attr) (ActionEnv Attr) (UbusEnv Attr) Ask

/-- The occasions in an input of the program. -/
def occasions : ProgramInput Attr → List (Occasion Attr)
  | .returned callbacks _ => callbacks.flatMap callbackOccasions
  | .sent env => [.memoryDue env]
  | _ => []

theorem output_onMessages {env : ActionEnv Attr} {ctx : Option UbusContext}
    {msg : TuyalinkMessage} {next n : Nat} {es : List Effect}
    (h : onMessages lib env ctx msg next = .ok (n, es)) :
    es.flatMap Effect.output =
      (callbackOccasions (.onMessages msg env)).flatMap (conduct lib) := by
  obtain ⟨type, dataString⟩ := msg
  cases type with
  | actionExecute =>
    simp only [callbackOccasions, List.flatMap_singleton]
    exact output_executeAction h
  | _ =>
    cases h
    rfl

/-- `callback` by its callbacks. -/
theorem callback_handles {m m' : Memory} {cb : Callback (UbusEnv Attr) (ActionEnv Attr)}
    {es : List Effect} (h : callback lib m cb = some (m', es)) :
    (∃ env, cb = .onConnected env ∧ m'.next = (onConnected lib env m.userData m.next).1 ∧
      es = .onConnected :: (onConnected lib env m.userData m.next).2) ∨
    (∃ msg env fs, cb = .onMessages msg env ∧
      onMessages lib env m.userData msg m.next = .ok (m'.next, fs) ∧ es = .onMessages :: fs) ∨
    (cb = .onDisconnect ∧ m'.next = m.next ∧ es = .onDisconnect :: onDisconnect m.userData) := by
  unfold callback at h
  cases hl : cb.link m.linked with
  | none =>
    simp only [hl] at h
    cases h
  | some linked =>
    simp only [hl] at h
    cases cb with
    | onConnected env =>
      cases h
      exact Or.inl ⟨env, rfl, rfl, rfl⟩
    | onMessages msg env =>
      simp only at h
      split at h
      · cases h
      · rename_i next fs hrun
        cases h
        exact Or.inr (Or.inl ⟨msg, env, fs, rfl, hrun, rfl⟩)
    | onDisconnect =>
      cases h
      exact Or.inr (Or.inr ⟨rfl, rfl, rfl⟩)

theorem output_sendMemoryInfo (env : UbusEnv Attr) (ctx : Option UbusContext) (next : Nat) :
    ((sendMemoryInfo lib env ctx next).2.events.map Effect.ubus).flatMap Effect.output =
      [Occasion.memoryDue env].flatMap (conduct lib) := by
  rw [output_ubus, List.flatMap_singleton, conduct, Occasion.sender?, Option.toList_some,
    List.flatMap_singleton]
  exact Sender.output_run lib env ctx .sendMemoryInfo next

theorem output_callback {m m' : Memory} {cb : Callback (UbusEnv Attr) (ActionEnv Attr)}
    {es : List Effect} (h : callback lib m cb = some (m', es)) :
    es.flatMap Effect.output = (callbackOccasions cb).flatMap (conduct lib) := by
  rcases callback_handles h with ⟨env, rfl, _, rfl⟩ | ⟨msg, env, fs, rfl, hrun, rfl⟩ |
    ⟨rfl, _, rfl⟩
  · rw [List.flatMap_cons]
    exact output_sendMemoryInfo env m.userData m.next
  · rw [List.flatMap_cons]
    exact output_onMessages hrun
  · rfl

/-- The calls that `main` makes once leave the heap to the callbacks and do nothing that these
do. -/
theorem ask_effects {s : State Pc Memory} {next : Ask → Memory → Outcome} {a : Ask} {pc : Pc}
    {m : Memory} {es : List Effect} (hi : instr s.pc = .ask next)
    (hask : next a s.mem = some (pc, m, es)) :
    m.next = s.mem.next ∧ ∀ e ∈ es, e.ofCallback = false := by
  obtain ⟨spc, k, mem⟩ := s
  cases spc with
  | uciAlloc =>
    cases hi
    rcases allocUci_cases hask with ⟨_, rfl, rfl⟩ | ⟨_, _, rfl, rfl⟩
    · exact ⟨rfl, List.forall_mem_singleton.mpr rfl⟩
    · exact ⟨rfl, List.forall_mem_singleton.mpr rfl⟩
  | options =>
    cases hi
    obtain ⟨_, rfl, rfl⟩ := loadOptions_cases hask
    exact ⟨rfl, nofun⟩
  | mqttInit o =>
    cases hi
    obtain ⟨rfl, _, _, rfl, _⟩ := initMqtt_cases hask
    exact ⟨rfl, List.forall_mem_singleton.mpr rfl⟩
  | ubusConnect =>
    cases hi
    rcases connectUbus_cases hask with ⟨_, rfl, rfl⟩ | ⟨_, _, rfl, rfl⟩
    · exact ⟨rfl, List.forall_mem_singleton.mpr rfl⟩
    · exact ⟨rfl, List.forall_mem_singleton.mpr rfl⟩
  | setupConnected =>
    cases hi
    obtain ⟨rfl, ⟨_, rfl⟩ | ⟨_, rfl⟩⟩ := askConnected_cases hask
    · exact ⟨rfl, List.forall_mem_singleton.mpr rfl⟩
    · exact ⟨rfl, List.forall_mem_singleton.mpr rfl⟩
  | cleanupEnd retVal =>
    cases hi
    obtain ⟨_, rfl, rfl⟩ := cleanUp_cases hask
    refine ⟨rfl, ?_⟩
    intro e he
    rcases List.mem_append.mp he with he | he
    · obtain ⟨name, _, rfl⟩ := List.mem_map.mp he
      rfl
    · obtain rfl := List.mem_singleton.mp he
      rfl
  | _ => cases hi

theorem output_of_main {e : Effect} (h : e.ofCallback = false) : e.output = [] := by
  cases e with
  | ubus u => cases h
  | _ => rfl

theorem periodicSend_cases {env : UbusEnv Attr} {m m' : Memory} {ok : Bool} {es : List Effect}
    (h : periodicSend lib env m = some (ok, m', es)) :
    m' = { m with next := (sendMemoryInfo lib env m.ubusCtx m.next).2.next } ∧
      es = (sendMemoryInfo lib env m.ubusCtx m.next).2.events.map .ubus := by
  cases h
  exact ⟨rfl, rfl⟩

theorem output_step {s t : State Pc Memory} {i : ProgramInput Attr} {es : List (Event Effect)}
    (h : step (program lib) s i = some (t, es)) :
    es.flatMap output = (occasions i).flatMap (conduct lib) := by
  cases transition_of_step h with
  | @sdk c next callbacks ret mem gs hi hrun =>
    have hcallbacks := hrun.observed fun _ _ _ _ => output_callback
    rw [List.flatMap_append, List.flatMap_cons, output_own, hcallbacks, occasions,
      List.flatMap_assoc]
    exact List.append_nil _
  | @send next env ok mem gs hi hsend =>
    obtain ⟨_, rfl⟩ := periodicSend_cases hsend
    rw [List.flatMap_append, List.flatMap_cons, output_own, output_sendMemoryInfo]
    exact List.append_nil _
  | ask hi hask =>
    rw [output_own, List.flatMap_eq_nil_iff.mpr fun e he =>
      output_of_main ((ask_effects hi hask).2 e he)]
    rfl
  | _ => rfl

/-- A request to switch a pin. -/
def Output.switch? : Output → Option Request
  | request r => if r.1 = cstr "turn_on_pin" ∨ r.1 = cstr "turn_off_pin" then some r else none
  | report _ => none

/-- The request of a pin command, where devctl is there and the arguments fit. -/
def Sender.switch? (env : UbusEnv Attr) : Sender → Option Request
  | .controlDevicePin turnOn device pin =>
    let s := Sender.controlDevicePin turnOn device pin
    if s.Found env ∧ s.Built env then some (s.method, s.request) else none
  | _ => none

/-- The request that a message of Tuya asks for. -/
def switching : TuyalinkMessage × ActionEnv Attr → Option Request
  | (msg, env) =>
    match msg.type with
    | .actionExecute =>
      (commandOf env.undefinedCast (msg.dataString.bind env.decode)).bind (Sender.switch? env.ubus)
    | _ => none

def message? : Callback (UbusEnv Attr) (ActionEnv Attr) → Option (TuyalinkMessage × ActionEnv Attr)
  | .onMessages msg env => some (msg, env)
  | _ => none

/-- The messages that arrive with an input. -/
def messages : ProgramInput Attr → List (TuyalinkMessage × ActionEnv Attr)
  | .returned callbacks _ => callbacks.filterMap message?
  | _ => []

theorem switch?_of_ne {r : Request} (hon : r.1 ≠ cstr "turn_on_pin")
    (hoff : r.1 ≠ cstr "turn_off_pin") : (Output.request r).switch? = none := by
  apply if_neg
  rintro (h | h)
  · exact hon h
  · exact hoff h

theorem switch?_request {env : UbusEnv Attr} {s : Sender} (h : s.Found env ∧ s.Built env) :
    (Output.request (s.method, s.request)).switch? = s.switch? env := by
  cases s with
  | sendMemoryInfo => exact switch?_of_ne (by decide) (by decide)
  | sendConnectedDevicesList => exact switch?_of_ne (by decide) (by decide)
  | controlDevicePin turnOn device pin =>
    rw [Sender.switch?, if_pos h]
    apply if_pos
    cases turnOn with
    | true => exact Or.inl rfl
    | false => exact Or.inr rfl

theorem switches_exchange (env : UbusEnv Attr) (s : Sender) (text : Option CString) :
    (exchange env s text).filterMap Output.switch? = (s.switch? env).toList := by
  by_cases h : s.Found env ∧ s.Built env
  · have hreports : ∀ texts : List CString,
        (texts.map Output.report).filterMap Output.switch? = [] := by
      intro texts
      rw [List.filterMap_map, List.filterMap_eq_nil_iff]
      intro text _
      rfl
    rw [exchange, if_pos h, List.filterMap_cons, hreports, switch?_request h]
    cases s.switch? env <;> rfl
  · rw [exchange, if_neg h]
    cases s with
    | controlDevicePin turnOn device pin =>
      rw [Sender.switch?, if_neg h]
      rfl
    | _ => rfl

theorem switches_callback (cb : Callback (UbusEnv Attr) (ActionEnv Attr)) :
    ((callbackOccasions cb).flatMap (conduct lib)).filterMap Output.switch? =
      ((message? cb).bind switching).toList := by
  cases cb with
  | onConnected env =>
    rw [callbackOccasions, List.flatMap_singleton, conduct, Occasion.sender?, Option.toList_some,
      List.flatMap_singleton]
    exact switches_exchange env .sendMemoryInfo _
  | onMessages msg env =>
    obtain ⟨type, dataString⟩ := msg
    cases type with
    | actionExecute =>
      simp only [callbackOccasions, List.flatMap_singleton, conduct, Occasion.sender?, message?,
        switching, Option.bind_some]
      cases commandOf env.undefinedCast (dataString.bind env.decode) with
      | none => rfl
      | some s =>
        rw [Option.toList_some, List.flatMap_singleton]
        exact switches_exchange env.ubus s _
    | _ => rfl
  | onDisconnect => rfl

theorem switches_input (i : ProgramInput Attr) :
    ((occasions i).flatMap (conduct lib)).filterMap Output.switch? =
      (messages i).filterMap switching := by
  cases i with
  | returned callbacks ret =>
    rw [occasions, messages]
    induction callbacks with
    | nil => rfl
    | cons cb callbacks ih =>
      rw [List.flatMap_cons, List.flatMap_append, List.filterMap_append, switches_callback, ih]
      cases hm : message? cb with
      | none => rw [List.filterMap_cons_none hm]; rfl
      | some m =>
        rw [List.filterMap_cons_some hm, List.filterMap_cons, Option.bind_some]
        cases switching m <;> rfl
  | sent env =>
    rw [occasions, List.flatMap_singleton, conduct, Occasion.sender?, Option.toList_some,
      List.flatMap_singleton]
    exact switches_exchange env .sendMemoryInfo _
  | _ => rfl

section Runs
variable {is : List (ProgramInput Attr)} {es : List (Event Effect)} {s t : State Pc Memory}
  (run : Run (step (program lib)) s is es t)
include run

theorem conduct_of_run : es.flatMap output = (is.flatMap occasions).flatMap (conduct lib) := by
  rw [run.observed fun _ _ _ _ => output_step, List.flatMap_assoc]

/-- In every run, from start to exit, in which the invocations that succeed bring replies, what
leaves the daemon is what the gateway does on the occasions of the run, one after the other. -/
theorem outputs_of_run (hanswered : ∀ o ∈ is.flatMap occasions, Answered o) :
    es.flatMap output = (is.flatMap occasions).flatMap (reaction lib) := by
  rw [conduct_of_run run]
  exact List.flatMap_congr fun o ho => conduct_eq_reaction (hanswered o ho)

/-- The pins are switched as Tuya asks: each command once, in the order in which they arrive,
and no pin without a command. -/
theorem switches_of_run :
    (es.flatMap output).filterMap Output.switch? = (is.flatMap messages).filterMap switching := by
  rw [List.filterMap_flatMap, List.filterMap_flatMap]
  refine run.observed fun s i t es hstep => ?_
  rw [← List.filterMap_flatMap, output_step hstep]
  exact switches_input i

end Runs
end

def switchText : CString := cstr
  "\x7b\"actionCode\":\"turn_on_pin\",\"inputParams\":\x7b\"device\":\"relay\",\"pin\":3\x7d\x7d"

def switchOn : ActionEnv Blob where
  decode := .ofTable [(switchText, .object [(cstr "actionCode", .string (cstr "turn_on_pin")),
    (cstr "inputParams", .object
      [(cstr "device", .string (cstr "relay")), (cstr "pin", .number 3)])])] (by decide)
  undefinedCast _ := 0
  ubus := Blob.answering 0 [.table [(cstr "status", .int32 0), (cstr "message", .string [])]]
    ⟨false, 0, []⟩

/-- The connection is up after one turn of the set-up; in the main loop a pin is switched on. -/
def switchesPin : List (ProgramInput Blob) :=
  upAfterOneTurn ++ [.returned [.onConnected (Blob.answering 0 [.memoryInfo] ⟨false, 0, []⟩),
    .onMessages ⟨.actionExecute, some switchText⟩ switchOn] oprtOk]

theorem switchesPin_run : ∃ es t, Run (step (program Blob.blobmsg)) start switchesPin es t := by
  have hexec : (exec (step (program Blob.blobmsg)) start switchesPin).isSome = true := by
    decide +kernel
  obtain ⟨⟨t, es⟩, hexec⟩ := Option.isSome_iff_exists.mp hexec
  exact ⟨es, t, run_of_exec hexec⟩

theorem answered_of_reply {o : Occasion Blob} {msg : Blob}
    (h : o.env = Blob.answering 0 [msg] ⟨false, 0, []⟩) : Answered o := by
  intro s _ _ _ _
  rw [h]
  exact List.cons_ne_nil msg []

theorem answered_switchesPin : ∀ o ∈ switchesPin.flatMap occasions, Answered o := by
  intro o ho
  rcases List.mem_cons.mp ho with rfl | ho
  · exact answered_of_reply rfl
  · obtain rfl := List.mem_singleton.mp ho
    exact answered_of_reply rfl

def switchesPinOutput : List Output :=
  [.request (cstr "info", none), .report (Blob.blobmsg.blobmsgFormatJson Blob.memoryTable),
    .request (cstr "turn_on_pin",
      some [(cstr "device", .string (cstr "relay")), (cstr "pin", .u32 3)]),
    .report (cstr "\x7b\"status\":0,\"message\":\"\"\x7d")]

theorem outputs_of_run_switchesPin : ∃ es t,
    Run (step (program Blob.blobmsg)) start switchesPin es t ∧
      es.flatMap output = switchesPinOutput := by
  obtain ⟨es, t, hrun⟩ := switchesPin_run
  refine ⟨es, t, hrun, (outputs_of_run hrun answered_switchesPin).trans ?_⟩
  decide +kernel

theorem switches_of_run_switchesPin : ∃ es t,
    Run (step (program Blob.blobmsg)) start switchesPin es t ∧
      (es.flatMap output).filterMap Output.switch? = [(cstr "turn_on_pin",
        some [(cstr "device", .string (cstr "relay")), (cstr "pin", .u32 3)])] := by
  obtain ⟨es, t, hrun⟩ := switchesPin_run
  refine ⟨es, t, hrun, (switches_of_run hrun).trans ?_⟩
  decide +kernel

end TuyaDaemon.Openwrt
