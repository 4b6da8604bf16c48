import TuyaDaemon.Openwrt.Connection
import TuyaDaemon.Openwrt.SenderRuns

/-!
# What an action message makes the daemon do

`Requested` is the reference specification: which sender a parse tree asks for, in
terms of lookups alone. `execute_action` performs that sender, or none.
-/

namespace TuyaDaemon.Openwrt

set_option autoImplicit false

def StringIs (item : Option CJson) (text : CString) : Prop :=
  ∃ s, CJson.getStringValue item = some s ∧ s.text = text

def NumberIs (item : Option CJson) (q : Rat) : Prop :=
  ∃ i, item = some i ∧ i.type = .number ∧ i.valuedouble = q

def Requested (undefinedCast : Rat → UInt32) (full : Option CJson) : Sender → Prop
  | .sendMemoryInfo => False
  | .sendConnectedDevicesList =>
    StringIs (CJson.getObjectItem full (cstr "actionCode")) (cstr "list_devices")
  | .controlDevicePin turnOn device pin =>
    StringIs (CJson.getObjectItem full (cstr "actionCode"))
      (if turnOn then cstr "turn_on_pin" else cstr "turn_off_pin") ∧
    ∃ params, CJson.getObjectItem full (cstr "inputParams") = some params ∧
      StringIs (CJson.getObjectItem (some params) (cstr "device")) device ∧
      ∃ q, NumberIs (CJson.getObjectItem (some params) (cstr "pin")) q ∧
        pin = castUint32 undefinedCast q

theorem stringIs_iff {item : Option CJson} {s : HeapString}
    (h : CJson.getStringValue item = some s) (text : CString) :
    StringIs item text ↔ s.text = text := by
  simp only [StringIs, h, Option.some.injEq, exists_eq_left']

theorem not_stringIs {item : Option CJson} (h : CJson.getStringValue item = none)
    (text : CString) : ¬ StringIs item text := by
  intro ⟨s, hs, _⟩
  rw [h] at hs
  cases hs

theorem NumberIs.unique {item : Option CJson} {p q : Rat} (hp : NumberIs item p)
    (hq : NumberIs item q) : p = q := by
  obtain ⟨i, hi, _, rfl⟩ := hp
  obtain ⟨j, hj, _, rfl⟩ := hq
  rw [Option.some.inj (hi.symm.trans hj)]

section
variable {Attr Data : Type} (lib : Blobmsg Attr Data) (ctx : Option UbusContext)

def attempt (env : UbusEnv Attr) (next : Nat) : Option Sender → Nat × List Effect
  | none => (next, [])
  | some s => ((s.run lib env ctx next).2.next, (s.run lib env ctx next).2.events.map .ubus)

/-- What `execute_action` amounts to when the message asks for `op`. -/
def performed (env : ActionEnv Attr) (dataString : Option CString) (next : Nat)
    (op : Option Sender) : Nat × List Effect :=
  let parsed := CJson.parse env.decode next dataString
  let owned := CJson.stringsOf parsed.1.toList
  let done := attempt lib ctx env.ubus parsed.2 op
  (done.1, .parse owned :: done.2 ++ [.delete owned])

variable (env : ActionEnv Attr) (full : Option CJson) (next : Nat)

theorem executeParsed_of_no_name
    (h : CJson.getStringValue (CJson.getObjectItem full (cstr "actionCode")) = none) :
    executeParsed lib env ctx full next = .ok (attempt lib ctx env.ubus next none) := by
  simp [executeParsed, h, attempt]
  rfl

/-- The arguments of a pin command are there and have the right types. -/
def HasArguments (device : HeapString) (item : CJson) : Prop :=
  CJson.getStringValue (CJson.getObjectItem (CJson.getObjectItem full (cstr "inputParams"))
    (cstr "device")) = some device ∧
  CJson.getObjectItem (CJson.getObjectItem full (cstr "inputParams")) (cstr "pin") = some item ∧
  item.type = .number

variable {full}

theorem HasArguments.params {device : HeapString} {item : CJson}
    (h : HasArguments full device item) :
    ∃ params, CJson.getObjectItem full (cstr "inputParams") = some params := by
  cases hp : CJson.getObjectItem full (cstr "inputParams") with
  | none =>
    have hd := h.1
    rw [hp] at hd
    cases hd
  | some params => exact ⟨params, rfl⟩

theorem requested_pin_iff {name device : HeapString} {item : CJson}
    (hname : CJson.getStringValue (CJson.getObjectItem full (cstr "actionCode")) = some name)
    (h : HasArguments full device item) (undefinedCast : Rat → UInt32) (turnOn : Bool)
    (dev : CString) (pin : UInt32) :
    Requested undefinedCast full (.controlDevicePin turnOn dev pin) ↔
      name.text = (if turnOn then cstr "turn_on_pin" else cstr "turn_off_pin") ∧
        dev = device.text ∧ pin = castUint32 undefinedCast item.valuedouble := by
  obtain ⟨params, hparams⟩ := h.params
  obtain ⟨hdev, hpin, htype⟩ := h
  rw [hparams] at hdev hpin
  simp only [Requested, stringIs_iff hname, hparams, Option.some.injEq, exists_eq_left',
    stringIs_iff hdev, hpin]
  refine and_congr_right fun _ => and_congr eq_comm ?_
  constructor
  · intro ⟨q, hq, hcast⟩
    rw [hcast, hq.unique ⟨item, rfl, htype, rfl⟩]
  · intro hcast
    exact ⟨item.valuedouble, ⟨item, rfl, htype, rfl⟩, hcast⟩

theorem hasArguments_of_requested {undefinedCast : Rat → UInt32} {turnOn : Bool}
    {dev : CString} {pin : UInt32}
    (h : Requested undefinedCast full (.controlDevicePin turnOn dev pin)) :
    ∃ device item, HasArguments full device item := by
  obtain ⟨_, params, hparams, ⟨device, hdev, _⟩, q, ⟨item, hpin, htype, _⟩, _⟩ := h
  refine ⟨device, item, ?_, ?_, htype⟩
  · rw [hparams, hdev]
  · rw [hparams, hpin]

/-- The test before the pin commands fails exactly when an argument is missing or mistyped. -/
theorem arguments_missing_iff :
    (let args := CJson.getObjectItem full (cstr "inputParams")
      let device := CJson.getObjectItem args (cstr "device")
      let pin := CJson.getObjectItem args (cstr "pin")
      args.isNone || device.isNone || (CJson.getStringValue device).isNone || pin.isNone ||
        !CJson.isNumber pin) = true ↔
      ¬ ∃ device item, HasArguments full device item := by
  constructor
  · intro h ⟨device, item, hargs⟩
    obtain ⟨params, hparams⟩ := hargs.params
    obtain ⟨hdev, hpin, htype⟩ := hargs
    obtain ⟨d, hd⟩ := Option.isSome_iff_exists.mp (CJson.getStringValue_isSome hdev)
    rw [hparams] at hdev hpin hd
    rw [hd] at hdev
    simp [hparams, hd, hdev, hpin, CJson.isNumber, htype] at h
  · intro h
    by_contra hne
    simp only [Bool.not_eq_true, Bool.or_eq_false_iff, Bool.not_eq_false'] at hne
    obtain ⟨⟨⟨_, hdev⟩, _⟩, hnum⟩ := hne
    obtain ⟨device, hdevice⟩ := Option.ne_none_iff_exists'.mp (Option.isNone_eq_false_iff.mp hdev
      |> Option.isSome_iff_ne_none.mp)
    obtain ⟨item, hitem, htype⟩ := CJson.isNumber_eq_true hnum
    exact h ⟨device, item, hdevice, hitem, htype⟩

theorem executeParsed_of_list {name : HeapString}
    (hname : CJson.getStringValue (CJson.getObjectItem full (cstr "actionCode")) = some name)
    (htext : name.text = cstr "list_devices") :
    executeParsed lib env ctx full next =
      .ok (attempt lib ctx env.ubus next (some .sendConnectedDevicesList)) := by
  have hitem := Option.isSome_iff_exists.mp (CJson.getStringValue_isSome hname)
  obtain ⟨item, hitem⟩ := hitem
  rw [hitem] at hname
  simp [executeParsed, hitem, hname, htext, attempt, Sender.run, bind, Except.bind]
  rfl

theorem executeParsed_of_missing {name : HeapString}
    (hname : CJson.getStringValue (CJson.getObjectItem full (cstr "actionCode")) = some name)
    (htext : name.text ≠ cstr "list_devices")
    (hargs : ¬ ∃ device item, HasArguments full device item) :
    executeParsed lib env ctx full next = .ok (attempt lib ctx env.ubus next none) := by
  obtain ⟨item, hitem⟩ := Option.isSome_iff_exists.mp (CJson.getStringValue_isSome hname)
  have hmissing := arguments_missing_iff.mpr hargs
  rw [hitem] at hname
  unfold executeParsed
  simp only [hitem, hname, Option.isNone_some, Bool.or_self, Bool.false_eq_true, if_false,
    strcmpEq_some, beq_false_of_ne htext, bind, Except.bind]
  rw [if_pos hmissing]
  rfl

def pinCommand (undefinedCast : Rat → UInt32) (name device : CString) (item : CJson) :
    Option Sender :=
  let pin := castUint32 undefinedCast item.valuedouble
  if name = cstr "turn_on_pin" then some (.controlDevicePin true device pin)
  else if name = cstr "turn_off_pin" then some (.controlDevicePin false device pin)
  else none

theorem executeParsed_of_arguments {name device : HeapString} {item : CJson}
    (hname : CJson.getStringValue (CJson.getObjectItem full (cstr "actionCode")) = some name)
    (htext : name.text ≠ cstr "list_devices") (hargs : HasArguments full device item) :
    executeParsed lib env ctx full next = .ok (attempt lib ctx env.ubus next
      (pinCommand env.undefinedCast name.text device.text item)) := by
  obtain ⟨action, haction⟩ := Option.isSome_iff_exists.mp (CJson.getStringValue_isSome hname)
  have hpresent := mt arguments_missing_iff.mp (not_not.mpr ⟨device, item, hargs⟩)
  obtain ⟨hdev, hpin, _⟩ := hargs
  rw [haction] at hname
  unfold executeParsed
  simp only [haction, hname, Option.isNone_some, Bool.or_self, Bool.false_eq_true, if_false,
    strcmpEq_some, beq_false_of_ne htext, bind, Except.bind]
  rw [if_neg hpresent]
  simp only [hpin, hdev, deref_some, pinCommand, beq_iff_eq]
  by_cases hon : name.text = cstr "turn_on_pin"
  · rw [if_pos hon, if_pos hon]
    rfl
  · rw [if_neg hon, if_neg hon]
    by_cases hoff : name.text = cstr "turn_off_pin"
    · rw [if_pos hoff, if_pos hoff]
      rfl
    · rw [if_neg hoff, if_neg hoff]
      rfl

theorem pinCommand_eq_some_iff {name device : HeapString} {item : CJson}
    (hname : CJson.getStringValue (CJson.getObjectItem full (cstr "actionCode")) = some name)
    (htext : name.text ≠ cstr "list_devices") (hargs : HasArguments full device item)
    (undefinedCast : Rat → UInt32) (s : Sender) :
    pinCommand undefinedCast name.text device.text item = some s ↔
      Requested undefinedCast full s := by
  have honOff : cstr "turn_on_pin" ≠ cstr "turn_off_pin" := by decide
  cases s with
  | sendMemoryInfo =>
    simp only [Requested, iff_false, pinCommand]
    split
    · simp
    · split <;> simp
  | sendConnectedDevicesList =>
    simp only [Requested, stringIs_iff hname, htext, iff_false, pinCommand]
    split
    · simp
    · split <;> simp
  | controlDevicePin turnOn dev pin =>
    rw [requested_pin_iff hname hargs]
    unfold pinCommand
    by_cases hon : name.text = cstr "turn_on_pin"
    · cases turnOn <;> simp [hon, honOff, eq_comm]
    · by_cases hoff : name.text = cstr "turn_off_pin"
      · cases turnOn <;> simp [hoff, honOff.symm, eq_comm]
      · cases turnOn <;> simp [hon, hoff]

/-- `execute_action` after the parse, against the reference specification. -/
theorem executeParsed_spec (full : Option CJson) :
    ∃ op : Option Sender,
      executeParsed lib env ctx full next = .ok (attempt lib ctx env.ubus next op) ∧
      ∀ s, op = some s ↔ Requested env.undefinedCast full s := by
  cases hname : CJson.getStringValue (CJson.getObjectItem full (cstr "actionCode")) with
  | none =>
    refine ⟨none, executeParsed_of_no_name lib ctx env full next hname, ?_⟩
    intro s
    constructor
    · nofun
    · intro h
      cases s with
      | sendMemoryInfo => exact h.elim
      | sendConnectedDevicesList => exact absurd h (not_stringIs hname _)
      | controlDevicePin turnOn dev pin => exact absurd h.1 (not_stringIs hname _)
  | some name =>
    by_cases htext : name.text = cstr "list_devices"
    · refine ⟨_, executeParsed_of_list lib ctx env next hname htext, ?_⟩
      intro s
      have hon : cstr "list_devices" ≠ cstr "turn_on_pin" := by decide
      have hoff : cstr "list_devices" ≠ cstr "turn_off_pin" := by decide
      cases s with
      | sendMemoryInfo => simp [Requested]
      | sendConnectedDevicesList => simp [Requested, stringIs_iff hname, htext]
      | controlDevicePin turnOn dev pin =>
        cases turnOn <;> simp [Requested, stringIs_iff hname, htext, hon, hoff]
    · by_cases hargs : ∃ device item, HasArguments full device item
      · obtain ⟨device, item, hargs⟩ := hargs
        exact ⟨_, executeParsed_of_arguments lib ctx env next hname htext hargs,
          pinCommand_eq_some_iff hname htext hargs env.undefinedCast⟩
      · refine ⟨none, executeParsed_of_missing lib ctx env next hname htext hargs, ?_⟩
        intro s
        constructor
        · nofun
        · intro h
          cases s with
          | sendMemoryInfo => exact h.elim
          | sendConnectedDevicesList => exact absurd ((stringIs_iff hname _).mp h) htext
          | controlDevicePin turnOn dev pin => exact absurd (hasArguments_of_requested h) hargs

/-- What a message handler does: it parses, talks to ubus and deletes what it parsed. -/
def Effect.ofMessage : Effect → Bool
  | parse _ => true
  | delete _ => true
  | ubus _ => true
  | _ => false

theorem ofMessage_of_attempt (env : UbusEnv Attr) (op : Option Sender) {e : Effect}
    (he : e ∈ (attempt lib ctx env next op).2) : e.ofMessage = true := by
  cases op with
  | none => cases he
  | some s =>
    obtain ⟨u, _, rfl⟩ := List.mem_map.mp he
    rfl

theorem onMessages_effects {msg : TuyalinkMessage} {n : Nat} {es : List Effect}
    (hrun : onMessages lib env ctx msg next = .ok (n, es)) :
    ∀ e ∈ es, e.ofMessage = true := by
  unfold onMessages at hrun
  split at hrun
  · obtain ⟨op, hop, _⟩ := executeParsed_spec lib ctx env
      (CJson.parse env.decode next msg.dataString).2 (CJson.parse env.decode next msg.dataString).1
    simp only [executeAction, hop, bind, Except.bind] at hrun
    obtain ⟨_, rfl⟩ := Prod.mk.inj (Except.ok.inj hrun)
    intro e he
    simp only [List.cons_append, List.mem_cons, List.mem_append, List.not_mem_nil, or_false] at he
    rcases he with rfl | he | rfl
    · rfl
    · exact ofMessage_of_attempt lib ctx _ env.ubus op he
    · rfl
  · obtain ⟨_, rfl⟩ := Prod.mk.inj (Except.ok.inj hrun)
    intro e he
    cases he

/-- What any callback does, with the handler it runs. -/
def Effect.ofCallback : Effect → Bool
  | onConnected => true
  | onMessages => true
  | onDisconnect => true
  | ubusFree _ => true
  | e => e.ofMessage

theorem callback_effects {m m' : Memory} {cb : Callback (UbusEnv Attr) (ActionEnv Attr)}
    {es : List Effect} (hstep : callback lib m cb = some (m', es)) :
    (m'.userData = m.userData ∧ m'.uciCtx = m.uciCtx) ∧ ∀ e ∈ es, e.ofCallback = true := by
  rcases callback_cases hstep with ⟨env, _, rfl, rfl⟩ | ⟨msg, env, next, gs, _, hgs, rfl, rfl⟩ |
    ⟨_, rfl, rfl⟩
  · refine ⟨⟨rfl, rfl⟩, ?_⟩
    simp only [onConnected, List.mem_cons, List.mem_map]
    rintro e (rfl | ⟨u, _, rfl⟩)
    · rfl
    · rfl
  · refine ⟨⟨rfl, rfl⟩, ?_⟩
    intro e he
    rcases List.mem_cons.mp he with rfl | he
    · rfl
    · have hmsg := onMessages_effects lib m.userData env m.next hgs e he
      cases e <;> first
        | rfl
        | exact hmsg
  · exact ⟨⟨rfl, rfl⟩, by simp [onDisconnect, Effect.ofCallback]⟩

theorem callbacks_effects {m m' : Memory} {cbs : List (Callback (UbusEnv Attr) (ActionEnv Attr))}
    {es : List Effect} (run : EventMachine.Run (callback lib) m cbs es m') :
    (m'.userData = m.userData ∧ m'.uciCtx = m.uciCtx) ∧ ∀ e ∈ es, e.ofCallback = true := by
  have hrun := run.history (P := fun t gs => (t.userData = m.userData ∧ t.uciCtx = m.uciCtx) ∧
    ∀ e ∈ gs, e.ofCallback = true) ?_ (h := []) ⟨⟨rfl, rfl⟩, by simp⟩
  · exact hrun
  · rintro s i t gs ks ⟨⟨huser, huci⟩, hgs⟩ hstep
    obtain ⟨⟨huser', huci'⟩, hks⟩ := callback_effects lib hstep
    refine ⟨⟨huser'.trans huser, huci'.trans huci⟩, ?_⟩
    intro e he
    rcases List.mem_append.mp he with he | he
    · exact hgs e he
    · exact hks e he

end
end TuyaDaemon.Openwrt
