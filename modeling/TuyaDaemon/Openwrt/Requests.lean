import TuyaDaemon.Openwrt.ActionDispatch
import TuyaDaemon.Openwrt.SenderContract

/-!
# The ubus requests of an action message

Of the lookups and the requests on the bus that a message leads to, the parse tree decides all
but whether they succeed. The number of a pin arrives as a double and leaves as the u32 field
of a request; what lies between is a test of the type and a conversion.
-/

namespace TuyaDaemon.Openwrt

set_option autoImplicit false

/-- The method and the fields of a ubus request. -/
abbrev Request := CString × Option BlobBuf

def UbusEvent.invoke? : UbusEvent → Option Request
  | invoke _ _ method request _ => some (method, request)
  | _ => none

def UbusEvent.lookup? : UbusEvent → Option (Option UbusContext × CString)
  | lookupId ctx service => some (ctx, service)
  | _ => none

def Effect.lookup? : Effect → Option (Option UbusContext × CString)
  | ubus e => e.lookup?
  | _ => none

/-- The services that are looked up, and over which handle. -/
def lookups (es : List Effect) : List (Option UbusContext × CString) :=
  es.filterMap Effect.lookup?

def Effect.invoke? : Effect → Option Request
  | ubus e => e.invoke?
  | _ => none

def requests (es : List Effect) : List Request := es.filterMap Effect.invoke?

namespace Sender
variable {Attr Data : Type} (lib : Blobmsg Attr Data) (env : UbusEnv Attr)
  (ctx : Option UbusContext) (s : Sender) (next : Nat)

/-- The request that a sender makes, if it gets that far. -/
def requested : List Request :=
  if s.Found env ∧ s.Built env then [(s.method, s.request)] else []

theorem invocations_prologue :
    (s.prologue lib env ctx next).filterMap UbusEvent.invoke? = [(s.method, s.request)] := by
  have hformat : ∀ ps : List HeapString,
      (ps.map UbusEvent.formatJson).filterMap UbusEvent.invoke? = [] := by
    intro ps
    simp [List.filterMap_map, Function.comp_def, UbusEvent.invoke?]
  simp only [prologue, List.filterMap_append, hformat]
  cases s <;> rfl

theorem invocations_run :
    (s.run lib env ctx next).2.events.filterMap UbusEvent.invoke? = s.requested env := by
  unfold requested
  by_cases hf : s.Found env
  · by_cases hb : s.Built env
    · have hepilogue : (epilogue (s.sent lib env next)).filterMap UbusEvent.invoke? = [] := by
        cases s.sent lib env next <;> rfl
      rw [run_of_built lib env ctx s next hf hb, if_pos ⟨hf, hb⟩, List.filterMap_append,
        invocations_prologue, hepilogue, List.append_nil]
    · rw [run_of_not_built lib env ctx s next hf hb, if_neg fun h => hb h.2]
      rfl
  · rw [run_of_not_found lib env ctx s next hf, if_neg fun h => hf h.1]
    rfl

theorem lookups_prologue :
    (s.prologue lib env ctx next).filterMap UbusEvent.lookup? = [(ctx, s.service)] := by
  have hformat : ∀ ps : List HeapString,
      (ps.map UbusEvent.formatJson).filterMap UbusEvent.lookup? = [] := by
    intro ps
    simp [List.filterMap_map, Function.comp_def, UbusEvent.lookup?]
  simp only [prologue, List.filterMap_append, hformat]
  cases s <;> rfl

theorem lookups_run :
    (s.run lib env ctx next).2.events.filterMap UbusEvent.lookup? = [(ctx, s.service)] := by
  by_cases hf : s.Found env
  · by_cases hb : s.Built env
    · have hepilogue : (epilogue (s.sent lib env next)).filterMap UbusEvent.lookup? = [] := by
        cases s.sent lib env next <;> rfl
      rw [run_of_built lib env ctx s next hf hb, List.filterMap_append, lookups_prologue, hepilogue,
        List.append_nil]
    · rw [run_of_not_built lib env ctx s next hf hb]
      rfl
  · rw [run_of_not_found lib env ctx s next hf]
    rfl

end Sender

section
variable {Attr Data : Type} (lib : Blobmsg Attr Data) (env : ActionEnv Attr)
  (ctx : Option UbusContext) (dataString : Option CString) (next : Nat)

theorem lookups_performed (op : Option Sender) :
    lookups (performed lib ctx env dataString next op).2 =
      op.toList.map fun s => (ctx, s.service) := by
  simp only [performed, lookups, List.cons_append]
  rw [List.filterMap_cons_none rfl, List.filterMap_append]
  cases op with
  | none => rfl
  | some s =>
    have hlookup : Effect.lookup? ∘ Effect.ubus = UbusEvent.lookup? := rfl
    simp only [attempt, List.filterMap_map, hlookup, Sender.lookups_run]
    rfl

theorem requests_attempt (ubus : UbusEnv Attr) (op : Option Sender) :
    requests (attempt lib ctx ubus next op).2 = op.toList.flatMap (Sender.requested ubus) := by
  cases op with
  | none => rfl
  | some s =>
    have hinvoke : Effect.invoke? ∘ Effect.ubus = UbusEvent.invoke? := rfl
    simp only [attempt, requests, List.filterMap_map, hinvoke, Sender.invocations_run,
      Option.toList_some, List.flatMap_singleton]

theorem requests_performed (op : Option Sender) :
    requests (performed lib ctx env dataString next op).2 =
      op.toList.flatMap (Sender.requested env.ubus) := by
  rw [← requests_attempt lib ctx (CJson.parse env.decode next dataString).2 env.ubus op]
  simp only [performed, requests, List.cons_append]
  rw [List.filterMap_cons_none rfl, List.filterMap_append]
  exact List.append_nil _

/-- What `execute_action` does, by the one sender that the parse tree asks for. -/
theorem executeAction_performed : ∃ op : Option Sender,
    executeAction lib env ctx dataString next =
        .ok (performed lib ctx env dataString next op) ∧
      ∀ s, op = some s ↔
        Requested env.undefinedCast (CJson.parse env.decode next dataString).1 s := by
  obtain ⟨op, hrun, hop⟩ := executeParsed_spec lib ctx env
    (CJson.parse env.decode next dataString).2 (CJson.parse env.decode next dataString).1
  refine ⟨op, ?_, hop⟩
  simp only [executeAction, hrun, bind, Except.bind]
  rfl

theorem service_of_requested {undefinedCast : Rat → UInt32} {full : Option CJson} {s : Sender}
    (h : Requested undefinedCast full s) : s.service = cstr "devctl" := by
  cases s with
  | sendMemoryInfo => exact h.elim
  | _ => rfl

/-- Whatever the data is, `execute_action` completes and performs the one sender that the parse
tree asks for: devctl is looked up once, and the request of that sender is made if it gets that
far. When the tree asks for none, neither ubus nor Tuya is touched. -/
theorem executeAction_performs_requested : ∃ op : Option Sender,
    executeAction lib env ctx dataString next =
        .ok (performed lib ctx env dataString next op) ∧
      (∀ s, op = some s ↔
        Requested env.undefinedCast (CJson.parse env.decode next dataString).1 s) ∧
      lookups (performed lib ctx env dataString next op).2 =
        op.toList.map (fun _ => (ctx, cstr "devctl")) ∧
      requests (performed lib ctx env dataString next op).2 =
        op.toList.flatMap (Sender.requested env.ubus) ∧
      (op = none → ∀ e, .ubus e ∉ (performed lib ctx env dataString next op).2) := by
  obtain ⟨op, hrun, hop⟩ := executeAction_performed lib env ctx dataString next
  refine ⟨op, hrun, hop, ?_, requests_performed lib env ctx dataString next op, ?_⟩
  · rw [lookups_performed]
    apply List.map_congr_left
    intro s hs
    rw [service_of_requested ((hop s).mp (Option.mem_toList.mp hs))]
  · intro hnone e
    simp [performed, hnone, attempt]

/-- The requests of a message, by the one sender that its parse tree asks for. -/
theorem executeAction_requests : ∃ (n : Nat) (es : List Effect) (op : Option Sender),
    executeAction lib env ctx dataString next = .ok (n, es) ∧
      requests es = op.toList.flatMap (Sender.requested env.ubus) ∧
      ∀ s, op = some s ↔
        Requested env.undefinedCast (CJson.parse env.decode next dataString).1 s := by
  obtain ⟨op, hrun, hop⟩ := executeAction_performed lib env ctx dataString next
  exact ⟨_, _, op, hrun, requests_performed lib env ctx dataString next op, hop⟩

end

/-! Pin numbers. -/

/-- The member `pin` of `inputParams`. -/
def pinOf (full : Option CJson) : Option CJson :=
  CJson.getObjectItem (CJson.getObjectItem full (cstr "inputParams")) (cstr "pin")

/-- `q` is a value of the field: an integer from 0 to 2^32 - 1. -/
def IsUint32 (q : Rat) : Prop := ∃ n : UInt32, q = (n.toNat : Rat)

def IsPinMethod (method : CString) : Prop :=
  method = cstr "turn_on_pin" ∨ method = cstr "turn_off_pin"

/-- The request is for the pin `q` and for no other. -/
def CarriesPin (q : Rat) (request : Request) : Prop :=
  ∃ fields n, request.2 = some fields ∧ fields.lookup (cstr "pin") = some (.u32 n) ∧
    q = (n.toNat : Rat)

theorem castUint32_of_isUint32 (undefinedCast : Rat → UInt32) (n : UInt32) :
    castUint32 undefinedCast (n.toNat : Rat) = n := by
  have ht : ((n.toNat : Rat).num).tdiv ((n.toNat : Rat).den : Int) = n.toNat := by
    rw [Rat.num_natCast, Rat.den_natCast]
    exact Int.tdiv_one _
  simp only [castUint32, ht]
  rw [if_pos ⟨Int.natCast_nonneg _, n.toNat_lt⟩]
  exact UInt32.ofNat_toNat

theorem isPinMethod_iff (s : Sender) :
    IsPinMethod s.method ↔ ∃ turnOn device pin, s = .controlDevicePin turnOn device pin := by
  cases s with
  | sendMemoryInfo =>
    constructor
    · rintro (h | h) <;> exact absurd h (by decide)
    · rintro ⟨_, _, _, ⟨⟩⟩
  | sendConnectedDevicesList =>
    constructor
    · rintro (h | h) <;> exact absurd h (by decide)
    · rintro ⟨_, _, _, ⟨⟩⟩
  | controlDevicePin turnOn device pin =>
    constructor
    · intro _
      exact ⟨turnOn, device, pin, rfl⟩
    · intro _
      cases turnOn with
      | true => exact Or.inl rfl
      | false => exact Or.inr rfl

theorem carriesPin_iff (q : Rat) (turnOn : Bool) (device : CString) (pin : UInt32) :
    CarriesPin q ((Sender.controlDevicePin turnOn device pin).method,
      (Sender.controlDevicePin turnOn device pin).request) ↔ q = (pin.toNat : Rat) := by
  have hfield : ([(cstr "device", .string device), (cstr "pin", .u32 pin)] : BlobBuf).lookup
      (cstr "pin") = some (.u32 pin) := rfl
  constructor
  · rintro ⟨fields, n, hfields, hn, hq⟩
    cases hfields
    rw [hfield] at hn
    cases hn
    exact hq
  · intro hq
    exact ⟨_, pin, rfl, hfield, hq⟩

theorem Requested.pin {undefinedCast : Rat → UInt32} {full : Option CJson} {turnOn : Bool}
    {device : CString} {pin : UInt32} {q : Rat}
    (h : Requested undefinedCast full (.controlDevicePin turnOn device pin))
    (hq : NumberIs (pinOf full) q) : pin = castUint32 undefinedCast q := by
  obtain ⟨_, params, hparams, _, p, hp, hpin⟩ := h
  rw [pinOf, hparams] at hq
  rw [hpin, hp.unique hq]

section
variable {Attr Data : Type} (lib : Blobmsg Attr Data) (env : ActionEnv Attr)
  (ctx : Option UbusContext) (dataString : Option CString) (next : Nat)

/-- A pin command is only ever made for the pin that the message names. -/
def ActsOnRequestedPin : Prop :=
  ∀ q, NumberIs (pinOf (CJson.parse env.decode next dataString).1) q →
    ∀ n es, executeAction lib env ctx dataString next = .ok (n, es) →
      ∀ request ∈ requests es, IsPinMethod request.1 → CarriesPin q request

/-- The type is checked and the range is not: the pin of a request is the pin of the
message exactly when no command with another number gets past the bus. -/
theorem actsOnRequestedPin_iff : ActsOnRequestedPin lib env ctx dataString next ↔
    ∀ q, NumberIs (pinOf (CJson.parse env.decode next dataString).1) q →
      ∀ turnOn device pin,
        Requested env.undefinedCast (CJson.parse env.decode next dataString).1
          (.controlDevicePin turnOn device pin) →
        (Sender.controlDevicePin turnOn device pin).Found env.ubus →
        (Sender.controlDevicePin turnOn device pin).Built env.ubus → IsUint32 q := by
  obtain ⟨n, es, op, hrun, hreqs, hop⟩ := executeAction_requests lib env ctx dataString next
  constructor
  · intro h q hq turnOn device pin hreq hf hb
    have hmem : ((Sender.controlDevicePin turnOn device pin).method,
        (Sender.controlDevicePin turnOn device pin).request) ∈ requests es := by
      rw [hreqs, (hop _).mpr hreq, Option.toList_some, List.flatMap_singleton, Sender.requested,
        if_pos ⟨hf, hb⟩]
      exact List.mem_singleton_self _
    have hmethod := (isPinMethod_iff _).mpr ⟨turnOn, device, pin, rfl⟩
    have hcarries := h q hq n es hrun _ hmem hmethod
    exact ⟨pin, (carriesPin_iff q turnOn device pin).mp hcarries⟩
  · intro h q hq m fs hrun' request hmem hmethod
    rw [hrun] at hrun'
    cases hrun'
    rw [hreqs] at hmem
    obtain ⟨s, hs, hmem⟩ := List.mem_flatMap.mp hmem
    rw [Option.mem_toList] at hs
    unfold Sender.requested at hmem
    split at hmem
    · rename_i hfb
      rw [List.mem_singleton] at hmem
      subst hmem
      obtain ⟨turnOn, device, pin, rfl⟩ := (isPinMethod_iff s).mp hmethod
      have hreq := (hop _).mp hs
      obtain ⟨k, rfl⟩ := h q hq turnOn device pin hreq hfb.1 hfb.2
      apply (carriesPin_iff _ turnOn device pin).mpr
      rw [hreq.pin hq, castUint32_of_isUint32]
    · cases hmem

end

def fractionalText : CString := cstr
  "\x7b\"actionCode\":\"turn_on_pin\",\"inputParams\":\x7b\"device\":\"relay\",\"pin\":2.5\x7d\x7d"

def fractionalPin : ActionEnv Blob where
  decode := .ofTable [(fractionalText, .object [(cstr "actionCode", .string (cstr "turn_on_pin")),
    (cstr "inputParams", .object
      [(cstr "device", .string (cstr "relay")), (cstr "pin", .number (5 / 2))])])] (by decide)
  undefinedCast _ := 0
  ubus := Blob.answering 0 [] ⟨false, 0, []⟩

theorem not_actsOnRequestedPin_fractional :
    ¬ ActsOnRequestedPin Blob.blobmsg fractionalPin none (some fractionalText) 1 := by
  intro h
  have hcarries := h (5 / 2) ⟨_, rfl, rfl, rfl⟩ _ _ rfl
    (cstr "turn_on_pin", some [(cstr "device", .string (cstr "relay")), (cstr "pin", .u32 2)])
    (by decide +kernel) (Or.inl rfl)
  obtain ⟨fields, n, hfields, hn, hq⟩ := hcarries
  cases hfields
  cases hn
  revert hq
  decide +kernel

end TuyaDaemon.Openwrt
