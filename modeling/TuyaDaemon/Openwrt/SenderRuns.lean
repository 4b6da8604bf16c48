import TuyaDaemon.Openwrt.SendInfo

/-!
# One call of a sender, in closed form

The three senders follow one protocol with different services, methods, requests and
reply checks. Everything they do is determined by the string that is sent, if
any, and by the strings that the replies produced.
-/

namespace TuyaDaemon.Openwrt

set_option autoImplicit false

def UbusEvent.report? : UbusEvent → Option CString
  | report msg => some msg
  | _ => none

def UbusEvent.formatJson? : UbusEvent → Option HeapString
  | formatJson s => some s
  | _ => none

def UbusEvent.free? : UbusEvent → Option HeapString
  | free s => some s
  | _ => none

def reports (es : List UbusEvent) : List CString := es.filterMap UbusEvent.report?

def formatted (es : List UbusEvent) : List HeapString := es.filterMap UbusEvent.formatJson?

def freed (es : List UbusEvent) : List HeapString := es.filterMap UbusEvent.free?

inductive Sender where
  | sendMemoryInfo
  | sendConnectedDevicesList
  | controlDevicePin (turnOn : Bool) (device : CString) (pin : UInt32)
  deriving DecidableEq, Repr

namespace Sender
variable {Attr Data : Type} (lib : Blobmsg Attr Data) (env : UbusEnv Attr)
  (ctx : Option UbusContext) (s : Sender) (next : Nat)

def run : Sender → Bool × Call
  | sendMemoryInfo => Openwrt.sendMemoryInfo lib env ctx next
  | sendConnectedDevicesList => Openwrt.sendConnectedDevicesList lib env ctx next
  | controlDevicePin turnOn device pin =>
    Openwrt.controlDevicePin lib env ctx turnOn device pin next

def service : Sender → CString
  | sendMemoryInfo => cstr "system"
  | sendConnectedDevicesList => cstr "devctl"
  | controlDevicePin _ _ _ => cstr "devctl"

def method : Sender → CString
  | sendMemoryInfo => cstr "info"
  | sendConnectedDevicesList => cstr "list_devices"
  | controlDevicePin turnOn _ _ => if turnOn then cstr "turn_on_pin" else cstr "turn_off_pin"

def request : Sender → Option BlobBuf
  | sendMemoryInfo => none
  | sendConnectedDevicesList => none
  | controlDevicePin _ device pin =>
    some [(cstr "device", .string device), (cstr "pin", .u32 pin)]

/-- The attribute that the callback formats, when the reply passes its checks. -/
def select : Sender → Attr → Option Attr
  | sendMemoryInfo => memDataReply lib
  | sendConnectedDevicesList => devListReply lib
  | controlDevicePin _ _ _ => devCommandReply lib

/-- Both `blobmsg_add` calls succeed, where there are any. -/
def Built : Sender → Prop
  | sendMemoryInfo => True
  | sendConnectedDevicesList => True
  | controlDevicePin _ device pin =>
    env.addString (cstr "device") device ≠ -1 ∧ env.addU32 (cstr "pin") pin ≠ -1

def opening : Sender → List UbusEvent
  | controlDevicePin _ _ _ => [.blobBufInit]
  | _ => []

def closing : Sender → List UbusEvent
  | controlDevicePin _ _ _ => [.blobBufFree]
  | _ => []

def Found : Prop := (env.lookupId s.service).1 = ubusStatusOk

def answer : Int × List Attr := env.invoke (env.lookupId s.service).2 s.method s.request

def InvokeOk : Prop := (s.answer env).1 = ubusStatusOk

def replies : List Attr := (s.answer env).2

instance : Decidable (s.Found env) := inferInstanceAs (Decidable (_ = _))
instance : Decidable (s.InvokeOk env) := inferInstanceAs (Decidable (_ = _))

instance : Decidable (s.Built env) :=
  match s with
  | sendMemoryInfo => isTrue trivial
  | sendConnectedDevicesList => isTrue trivial
  | controlDevicePin _ _ _ => inferInstanceAs (Decidable (_ ∧ _))

end Sender

section Replies
variable {Attr Data : Type} (lib : Blobmsg Attr Data) (select : Attr → Option Attr)

/-- The strings that a sequence of replies makes the callback produce. -/
def produced (next : Nat) : List Attr → List HeapString
  | [] => []
  | msg :: msgs =>
    match select msg with
    | none => produced next msgs
    | some attr => ⟨next, lib.blobmsgFormatJson attr⟩ :: produced (next + 1) msgs

theorem produced_append (next : Nat) (xs ys : List Attr) :
    produced lib select next (xs ++ ys) =
      produced lib select next xs ++
        produced lib select (next + (produced lib select next xs).length) ys := by
  induction xs generalizing next with
  | nil => rfl
  | cons msg msgs ih =>
    cases hs : select msg with
    | none => simp only [List.cons_append, produced, hs, ih]
    | some attr =>
      simp only [List.cons_append, produced, hs, ih, List.length_cons]
      rw [Nat.add_right_comm next 1, Nat.add_assoc next]

theorem produced_eq_nil_iff (next : Nat) (msgs : List Attr) :
    produced lib select next msgs = [] ↔ ∀ msg ∈ msgs, select msg = none := by
  induction msgs generalizing next with
  | nil => simp [produced]
  | cons msg msgs ih => cases hs : select msg <;> simp [produced, hs, ih]

theorem addr_lt_of_mem_produced {next : Nat} {msgs : List Attr} {p : HeapString}
    (hp : p ∈ produced lib select next msgs) :
    p.addr < next + (produced lib select next msgs).length := by
  induction msgs generalizing next with
  | nil => simp [produced] at hp
  | cons msg msgs ih =>
    cases hs : select msg with
    | none =>
      simp only [produced, hs] at hp ⊢
      exact ih hp
    | some attr =>
      simp only [produced, hs, List.mem_cons, List.length_cons] at hp ⊢
      rcases hp with rfl | hp
      · exact Nat.lt_add_of_pos_right (Nat.succ_pos _)
      · have := ih hp
        omega

theorem foldl_receive_events (c : Call) (msgs : List Attr) :
    (msgs.foldl (receive lib select) c).events =
      c.events ++ (produced lib select c.next msgs).map .formatJson := by
  induction msgs generalizing c with
  | nil => simp [produced]
  | cons msg msgs ih =>
    rw [List.foldl_cons, ih]
    cases hs : select msg <;> simp [receive, produced, hs]

theorem foldl_receive_next (c : Call) (msgs : List Attr) :
    (msgs.foldl (receive lib select) c).next =
      c.next + (produced lib select c.next msgs).length := by
  induction msgs generalizing c with
  | nil => rfl
  | cons msg msgs ih =>
    rw [List.foldl_cons, ih]
    cases hs : select msg with
    | none => simp only [receive, produced, hs]
    | some attr =>
      simp only [receive, produced, hs, List.length_cons]
      omega

/-- The response is what the last reply made it, whatever it was before. -/
theorem foldl_receive_resp (c : Call) (msgs : List Attr) (last : Attr) :
    ((msgs ++ [last]).foldl (receive lib select) c).resp =
      match select last with
      | none => ⟨false, (msgs.foldl (receive lib select) c).resp.dataJson⟩
      | some attr => ⟨true, c.next + (produced lib select c.next msgs).length,
          lib.blobmsgFormatJson attr⟩ := by
  rw [List.foldl_append, List.foldl_cons, List.foldl_nil, ← foldl_receive_next]
  cases hs : select last <;> simp [receive, hs]

theorem foldl_receive_resp_congr {c d : Call} (hr : c.resp = d.resp) (hn : c.next = d.next)
    (msgs : List Attr) :
    (msgs.foldl (receive lib select) c).resp = (msgs.foldl (receive lib select) d).resp := by
  induction msgs generalizing c d with
  | nil => exact hr
  | cons msg msgs ih =>
    rw [List.foldl_cons, List.foldl_cons]
    cases hs : select msg with
    | none => exact ih (by simp [receive, hs, hr]) (by simp [receive, hs, hn])
    | some attr => exact ih (by simp [receive, hs, hn]) (by simp [receive, hs, hn])

end Replies

namespace Sender
variable {Attr Data : Type} (lib : Blobmsg Attr Data) (env : UbusEnv Attr)
  (ctx : Option UbusContext) (s : Sender) (next : Nat)

def response : UbusResponse :=
  ((s.replies env).foldl (receive lib (s.select lib)) ⟨env.stack, next, []⟩).resp

/-- The string that the sender reports and then frees, if it gets that far. -/
def sent : Option HeapString :=
  if s.InvokeOk env ∧ (s.response lib env next).requestSuccessful = true then
    some (s.response lib env next).dataJson
  else none

/-- Everything up to the return of `ubus_invoke` and the release of the request. -/
def prologue : List UbusEvent :=
  .lookupId ctx s.service :: s.opening ++
    [.invoke ctx (env.lookupId s.service).2 s.method s.request 10000] ++
    (produced lib (s.select lib) next (s.replies env)).map .formatJson ++ s.closing

def epilogue : Option HeapString → List UbusEvent
  | none => []
  | some p => [.report p.text, .free p]

def verdict : Option HeapString → Bool
  | none => false
  | some p => !decide (env.report p.text < 0)

theorem run_of_not_found (h : ¬ s.Found env) :
    s.run lib env ctx next = (false, ⟨env.stack, next, [.lookupId ctx s.service]⟩) := by
  have hb : ((env.lookupId s.service).1 == ubusStatusOk) = false := beq_false_of_ne h
  cases s <;>
    simp_all [run, Openwrt.sendMemoryInfo, Openwrt.sendConnectedDevicesList, invokeAndReport,
      Openwrt.controlDevicePin, lookupUbusService, Call.emit, service]

theorem run_of_not_built (hf : s.Found env) (h : ¬ s.Built env) :
    s.run lib env ctx next =
      (false, ⟨env.stack, next, [.lookupId ctx s.service, .blobBufInit]⟩) := by
  cases s with
  | sendMemoryInfo => exact absurd trivial h
  | sendConnectedDevicesList => exact absurd trivial h
  | controlDevicePin turnOn device pin =>
    have hadd : env.addString (cstr "device") device = -1 ∨
        env.addU32 (cstr "pin") pin = -1 := by
      by_contra hne
      exact h (not_or.mp hne)
    have hfound : (env.lookupId (cstr "devctl")).1 = ubusStatusOk := hf
    simp [run, Openwrt.controlDevicePin, lookupUbusService, Call.emit, hfound, hadd, service]

/-- The state in which `ubus_invoke` leaves a call, before anything is reported. -/
def answered : Call :=
  ⟨s.response lib env next,
    next + (produced lib (s.select lib) next (s.replies env)).length,
    s.prologue lib env ctx next⟩

theorem foldl_receive_eq (es : List UbusEvent) :
    (s.replies env).foldl (receive lib (s.select lib)) ⟨env.stack, next, es⟩ =
      ⟨s.response lib env next,
        next + (produced lib (s.select lib) next (s.replies env)).length,
        es ++ (produced lib (s.select lib) next (s.replies env)).map .formatJson⟩ := by
  have he := foldl_receive_events lib (s.select lib) ⟨env.stack, next, es⟩ (s.replies env)
  have hn := foldl_receive_next lib (s.select lib) ⟨env.stack, next, es⟩ (s.replies env)
  have hr : ((s.replies env).foldl (receive lib (s.select lib)) ⟨env.stack, next, es⟩).resp =
      s.response lib env next :=
    foldl_receive_resp_congr lib (s.select lib) (c := ⟨env.stack, next, es⟩)
      (d := ⟨env.stack, next, []⟩) rfl rfl (s.replies env)
  rw [← he, ← hn, ← hr]

/-- The senders without a request, up to what they do with the response. -/
theorem invokeAndReport_eq (hf : s.Found env) (hreq : s.request = none)
    (hopen : s.opening = []) (hclose : s.closing = []) :
    invokeAndReport env ctx s.service s.method (receive lib (s.select lib)) next =
      reportResponse env (s.answer env).1 (s.answered lib env ctx next) := by
  have hfold := s.foldl_receive_eq lib env next [.lookupId ctx s.service,
    .invoke ctx (env.lookupId s.service).2 s.method none 10000]
  have hfound : (env.lookupId s.service).1 = ubusStatusOk := hf
  simp only [replies, answer, hreq] at hfold
  simp only [invokeAndReport, lookupUbusService, hfound, beq_self_eq_true, Bool.not_true,
    Bool.false_eq_true, if_false, ubusInvoke, Call.emit, List.cons_append, List.nil_append, hfold]
  simp [answered, prologue, answer, hreq, hopen, hclose, replies]

theorem run_eq_reportResponse (hf : s.Found env) (hb : s.Built env) :
    s.run lib env ctx next =
      reportResponse env (s.answer env).1 (s.answered lib env ctx next) := by
  cases s with
  | sendMemoryInfo => exact invokeAndReport_eq lib env ctx sendMemoryInfo next hf rfl rfl rfl
  | sendConnectedDevicesList =>
    exact invokeAndReport_eq lib env ctx sendConnectedDevicesList next hf rfl rfl rfl
  | controlDevicePin turnOn device pin =>
    let s := controlDevicePin turnOn device pin
    have hfold := s.foldl_receive_eq lib env next [.lookupId ctx s.service, .blobBufInit,
      .invoke ctx (env.lookupId s.service).2 s.method s.request 10000]
    have hfound : (env.lookupId (cstr "devctl")).1 = ubusStatusOk := hf
    have hadd : ¬ (env.addString (cstr "device") device = -1 ∨
        env.addU32 (cstr "pin") pin = -1) := not_or.mpr hb
    simp only [s, replies, answer, service, method, request, select] at hfold
    simp only [run, Openwrt.controlDevicePin, lookupUbusService, hfound, hadd,
      beq_self_eq_true, Bool.not_true, Bool.false_eq_true, if_false, ubusInvoke,
      ubusDevCommandRespCb, Call.emit, List.cons_append, List.nil_append, hfold]
    simp [answered, prologue, answer, service, method, request, opening, closing, replies, select]

theorem reportResponse_answered :
    reportResponse env (s.answer env).1 (s.answered lib env ctx next) =
      (verdict env (s.sent lib env next),
        { s.answered lib env ctx next with
          events := s.prologue lib env ctx next ++ epilogue (s.sent lib env next) }) := by
  unfold reportResponse reportPropertyToTuya sent InvokeOk
  by_cases hr : (s.answer env).1 = ubusStatusOk
  · cases hs : (s.response lib env next).requestSuccessful with
    | false => simp [hr, hs, answered, verdict, epilogue]
    | true =>
      simp only [hr, hs, answered, ne_eq, not_true_eq_false, if_false, Bool.not_true,
        Bool.false_eq_true, and_self, if_true, verdict, epilogue, Call.emit, List.append_assoc]
      rfl
  · simp [hr, answered, verdict, epilogue]

/-- A call that gets past the lookup and the request invokes the method once. -/
theorem run_of_built (hf : s.Found env) (hb : s.Built env) :
    s.run lib env ctx next =
      (verdict env (s.sent lib env next),
        { s.answered lib env ctx next with
          events := s.prologue lib env ctx next ++ epilogue (s.sent lib env next) }) := by
  rw [s.run_eq_reportResponse lib env ctx next hf hb, reportResponse_answered]

/-- Every call of a sender begins with a lookup over the handle it is given. -/
theorem lookupId_mem_run : .lookupId ctx s.service ∈ (s.run lib env ctx next).2.events := by
  by_cases hf : s.Found env
  · by_cases hb : s.Built env
    · rw [run_of_built lib env ctx s next hf hb]
      simp [prologue]
    · rw [run_of_not_built lib env ctx s next hf hb]
      exact List.mem_cons_self
  · rw [run_of_not_found lib env ctx s next hf]
    exact List.mem_cons_self

end Sender
end TuyaDaemon.Openwrt
