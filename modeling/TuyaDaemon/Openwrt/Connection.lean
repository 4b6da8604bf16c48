import TuyaDaemon.CJson
import TuyaDaemon.EventMachine
import TuyaDaemon.Tuyalink
import TuyaDaemon.Openwrt.Args
import TuyaDaemon.Openwrt.SendInfo

/-!
# connection.c of the OpenWrt daemon: the callbacks

The ubus handle reaches the callbacks as `user_data`. `on_disconnect` passes it
to `ubus_free`; nothing takes it out of the context or out of `main`.
-/

namespace TuyaDaemon.Openwrt

set_option autoImplicit false

/-- What the code of the daemon does: the handlers that run, the calls they and `main`
make, and what is allocated and released. -/
inductive Effect where
  | onConnected
  | onMessages
  | onDisconnect
  | parse (made : List HeapString)
  | delete (freed : List HeapString)
  | ubus (e : UbusEvent)
  | ubusFree (ctx : Option UbusContext)
  | uciAllocContext (ctx : Option UciContext)
  | mqttInit (config : TuyaMqttConfig) (ret : Int)
  | ubusConnect (ctx : Option UbusContext)
  | mqttConnected (answer : Bool)
  | freeOptionName (name : CString)
  | uciFreeContext (ctx : Option UciContext)
  deriving DecidableEq, Repr

/-- What a message handler is answered: the value of a JSON text, the result of a
conversion that C leaves undefined, and what ubus and Tuya answer. -/
structure ActionEnv (Attr : Type) where
  decode : Decoder
  undefinedCast : Rat → UInt32
  ubus : UbusEnv Attr

/-- `(uint32_t)q`: truncation toward zero, undefined when the result does not fit. -/
def castUint32 (undefinedCast : Rat → UInt32) (q : Rat) : UInt32 :=
  let t := q.num.tdiv q.den
  if 0 ≤ t ∧ t.toNat < UInt32.size then UInt32.ofNat t.toNat else undefinedCast q

section
variable {Attr Data : Type} (lib : Blobmsg Attr Data)

def onConnected (env : UbusEnv Attr) (userData : Option UbusContext) (next : Nat) :
    Nat × List Effect :=
  let (_, c) := sendMemoryInfo lib env userData next
  (c.next, c.events.map .ubus)

def onDisconnect (userData : Option UbusContext) : List Effect := [.ubusFree userData]

variable (env : ActionEnv Attr) (ubusCtx : Option UbusContext)

/-- `execute_action` between the parse and the label `json_cleanup`. -/
def executeParsed (fullData : Option CJson) (next : Nat) :
    Except Fault (Nat × List Effect) := do
  let action := CJson.getObjectItem fullData (cstr "actionCode")
  let actionName := CJson.getStringValue action
  if action.isNone || actionName.isNone then
    return (next, [])
  else if ← strcmpEq actionName (cstr "list_devices") then
    let (_, c) := sendConnectedDevicesList lib env.ubus ubusCtx next
    return (c.next, c.events.map .ubus)
  else
    let actionArgs := CJson.getObjectItem fullData (cstr "inputParams")
    let device := CJson.getObjectItem actionArgs (cstr "device")
    let devName := CJson.getStringValue device
    let pinJson := CJson.getObjectItem actionArgs (cstr "pin")
    if actionArgs.isNone || device.isNone || devName.isNone || pinJson.isNone ||
        !CJson.isNumber pinJson then
      return (next, [])
    else
      let pin := castUint32 env.undefinedCast (← deref pinJson).valuedouble
      if ← strcmpEq actionName (cstr "turn_on_pin") then
        let (_, c) := controlDevicePin lib env.ubus ubusCtx true (← deref devName).text pin next
        return (c.next, c.events.map .ubus)
      else if ← strcmpEq actionName (cstr "turn_off_pin") then
        let (_, c) := controlDevicePin lib env.ubus ubusCtx false (← deref devName).text pin next
        return (c.next, c.events.map .ubus)
      else
        return (next, [])

def executeAction (dataString : Option CString) (next : Nat) :
    Except Fault (Nat × List Effect) := do
  let (fullData, next) := CJson.parse env.decode next dataString
  let owned := CJson.stringsOf fullData.toList
  let (next, es) ← executeParsed lib env ubusCtx fullData next
  return (next, .parse owned :: es ++ [.delete owned])

def onMessages (userData : Option UbusContext) (msg : TuyalinkMessage) (next : Nat) :
    Except Fault (Nat × List Effect) :=
  match msg.type with
  | .actionExecute => executeAction lib env userData msg.dataString next
  | _ => return (next, [])

end

/-- What survives from call to call: whether there is a connection, `user_data` of the MQTT
context, the next heap address, and the two locals of `main` that hold a context. -/
structure Memory where
  linked : Bool
  userData : Option UbusContext
  next : Nat
  uciCtx : Option UciContext
  ubusCtx : Option UbusContext
  deriving DecidableEq, Repr

/-- One callback. A handler that faults takes the process down: it has no step. -/
def callback {Attr Data : Type} (lib : Blobmsg Attr Data) :
    EventMachine.Step Memory (Callback (UbusEnv Attr) (ActionEnv Attr)) Effect :=
  fun m cb =>
    match cb.link m.linked with
    | none => none
    | some linked =>
      match cb with
      | .onConnected env =>
        let (next, es) := onConnected lib env m.userData m.next
        some ({ m with linked, next }, .onConnected :: es)
      | .onMessages msg env =>
        match onMessages lib env m.userData msg m.next with
        | .error _ => none
        | .ok (next, es) => some ({ m with linked, next }, .onMessages :: es)
      | .onDisconnect => some ({ m with linked }, .onDisconnect :: onDisconnect m.userData)

theorem callback_cases {Attr Data : Type} {lib : Blobmsg Attr Data} {m m' : Memory}
    {cb : Callback (UbusEnv Attr) (ActionEnv Attr)} {es : List Effect}
    (h : callback lib m cb = some (m', es)) :
    (∃ env, m.linked = false ∧
      m' = { m with linked := true, next := (onConnected lib env m.userData m.next).1 } ∧
      es = .onConnected :: (onConnected lib env m.userData m.next).2) ∨
    (∃ msg env next fs, m.linked = true ∧
      onMessages lib env m.userData msg m.next = .ok (next, fs) ∧
      m' = { m with linked := true, next } ∧ es = .onMessages :: fs) ∨
    (m.linked = true ∧ m' = { m with linked := false } ∧
      es = .onDisconnect :: onDisconnect m.userData) := by
  cases cb with
  | onConnected env =>
    cases hl : m.linked with
    | true => simp [callback, Callback.link, hl] at h
    | false =>
      simp only [callback, Callback.link, hl, Bool.false_eq_true, if_false] at h
      cases h
      exact Or.inl ⟨env, rfl, rfl, rfl⟩
  | onMessages msg env =>
    cases hl : m.linked with
    | false => simp [callback, Callback.link, hl] at h
    | true =>
      simp only [callback, Callback.link, hl, if_true] at h
      split at h
      · cases h
      · rename_i hrun
        cases h
        exact Or.inr (Or.inl ⟨msg, env, _, _, rfl, hrun, rfl, rfl⟩)
  | onDisconnect =>
    cases hl : m.linked with
    | false => simp [callback, Callback.link, hl] at h
    | true =>
      simp only [callback, Callback.link, hl, if_true] at h
      cases h
      exact Or.inr (Or.inr ⟨rfl, rfl, rfl⟩)

end TuyaDaemon.Openwrt
