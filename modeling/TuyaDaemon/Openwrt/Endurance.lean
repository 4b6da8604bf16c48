import TuyaDaemon.Environment
import TuyaDaemon.Openwrt.ActionDispatch
import TuyaDaemon.Openwrt.Main

/-!
# The OpenWrt daemon takes what it is offered

The action handler tests everything that it looks up, so no message faults. The options are
read before there is a session; libuci marks a lookup as complete only when it has an option.
-/

namespace TuyaDaemon.Openwrt

set_option autoImplicit false

open Daemon EventMachine

/-- A lookup that is marked as complete has found an option. -/
def Finds (lookup : UciLookup) : Prop :=
  ∀ option ptr, (lookup option ptr).2.lookupComplete = true →
    ∃ o, (lookup option ptr).2.o = some o

section Options
variable {lookup : UciLookup} {lookups : Nat → UciLookup}

theorem uciGetOption_total (h : Finds lookup) (option : CString) (ptr : UciPtr) :
    ∃ r, uciGetOption lookup option ptr = .ok r := by
  unfold uciGetOption
  cases hcheck : uciCheckSuccess (lookup option ptr).1 (lookup option ptr).2 with
  | false => exact ⟨_, by simp [hcheck]; rfl⟩
  | true =>
    have hcomplete : (lookup option ptr).2.lookupComplete = true := by
      simp only [uciCheckSuccess] at hcheck
      split at hcheck
      · cases hcheck
      · simpa using hcheck
    obtain ⟨o, ho⟩ := h option ptr hcomplete
    by_cases htype : o.type = .string
    · exact ⟨_, by simp [hcheck, ho, htype, bind, Except.bind]; rfl⟩
    · exact ⟨_, by simp [hcheck, ho, htype, bind, Except.bind]; rfl⟩

theorem readOptions_total (h : ∀ i, Finds (lookups i)) (ptr : UciPtr) :
    ∃ r, readOptions lookups ptr = .ok r := by
  obtain ⟨r₀, h₀⟩ := uciGetOption_total (h 0) deviceIdOption ptr
  obtain ⟨r₁, h₁⟩ := uciGetOption_total (h 1) deviceSecretOption r₀.2
  obtain ⟨r₂, h₂⟩ := uciGetOption_total (h 2) productIdOption r₁.2
  obtain ⟨r₃, h₃⟩ := uciGetOption_total (h 3) logLevelOption r₂.2
  simp only [readOptions, bind, Except.bind, h₀, h₁, h₂, h₃]
  split
  · split
    · exact ⟨_, rfl⟩
    · rename_i level _
      by_cases hlevel : level > 7
      · exact ⟨_, if_pos hlevel⟩
      · rw [if_neg hlevel]
        have hlt : level < logPriorities.length := by
          change level < 8
          omega
        rw [List.getElem?_eq_getElem hlt]
        exact ⟨_, rfl⟩
  · exact ⟨_, rfl⟩

end Options

section
variable {Attr Data : Type} (lib : Blobmsg Attr Data)

theorem onMessages_total (env : ActionEnv Attr) (ctx : Option UbusContext)
    (msg : TuyalinkMessage) (next : Nat) : ∃ r, onMessages lib env ctx msg next = .ok r := by
  unfold onMessages
  split
  · obtain ⟨op, hop, _⟩ := executeParsed_spec lib ctx env
      (CJson.parse env.decode next msg.dataString).2 (CJson.parse env.decode next msg.dataString).1
    exact ⟨_, by simp only [executeAction, hop, bind, Except.bind]; rfl⟩
  · exact ⟨_, rfl⟩

variable {lib}

theorem callback_total {m : Memory} {cb : Callback (UbusEnv Attr) (ActionEnv Attr)}
    {linked : Bool} (hl : cb.link m.linked = some linked) :
    ∃ m' es, callback lib m cb = some (m', es) := by
  unfold callback
  rw [hl]
  cases cb with
  | onConnected env => exact ⟨_, _, rfl⟩
  | onMessages msg env =>
    obtain ⟨r, hr⟩ := onMessages_total lib env m.userData msg m.next
    exact ⟨_, _, by simp only [hr]; rfl⟩
  | onDisconnect => exact ⟨_, _, rfl⟩

theorem linked_callback {m m' : Memory} {cb : Callback (UbusEnv Attr) (ActionEnv Attr)}
    {es : List Effect} (h : callback lib m cb = some (m', es)) :
    cb.link m.linked = some m'.linked := by
  unfold callback at h
  cases hl : cb.link m.linked with
  | none =>
    simp only [hl] at h
    cases h
  | some linked =>
    simp only [hl] at h
    cases cb with
    | onMessages msg env =>
      simp only at h
      split at h
      · cases h
      · cases h
        rfl
    | _ =>
      cases h
      rfl

end

/-- The answers to the calls that `main` makes, but for those of the SDK. -/
inductive Awaits : Pc → Ask → Prop where
  | uciAlloc {ctx : Option UciContext} : Awaits .uciAlloc (.uciAllocContext ctx)
  | options {lookups : Nat → UciLookup} {ptr : UciPtr} (h : ∀ i, Finds (lookups i)) :
      Awaits .options (.options lookups ptr)
  | mqttInit {o : Options} {ret : Int} : Awaits (.mqttInit o) (.mqttInit ret)
  | ubusConnect {ctx : Option UbusContext} : Awaits .ubusConnect (.ubusConnect ctx)
  | setupConnected {answer : Bool} : Awaits .setupConnected (.mqttConnected answer)
  | cleanupEnd {retVal : Int} : Awaits (.cleanupEnd retVal) .cleanup

def environment : Environment Pc Memory Ask := ⟨Awaits, Memory.linked⟩

theorem answer_of_awaits {pc : Pc} {a : Ask} (ha : Awaits pc a) :
    ∃ next, instr pc = .ask next ∧ ∀ m, ∃ r, next a m = some r := by
  cases ha with
  | @uciAlloc ctx => cases ctx <;> exact ⟨_, rfl, fun _ => ⟨_, rfl⟩⟩
  | @options lookups ptr h =>
    refine ⟨_, rfl, fun m => ?_⟩
    obtain ⟨r, hr⟩ := readOptions_total h ptr
    cases r with
    | none => exact ⟨_, by simp only [loadOptions, hr]; rfl⟩
    | some o => exact ⟨_, by simp only [loadOptions, hr]; rfl⟩
  | @mqttInit o ret =>
    refine ⟨_, rfl, fun m => ?_⟩
    by_cases hret : ret = oprtOk <;> simp [initMqtt, hret]
  | @ubusConnect ctx => cases ctx <;> exact ⟨_, rfl, fun _ => ⟨_, rfl⟩⟩
  | setupConnected => exact ⟨_, rfl, fun _ => ⟨_, rfl⟩⟩
  | cleanupEnd => exact ⟨_, rfl, fun _ => ⟨_, rfl⟩⟩

theorem awaits_of_ask {pc : Pc} {next : Ask → Memory → Outcome} (h : instr pc = .ask next) :
    ∃ a, Awaits pc a := by
  cases pc with
  | uciAlloc => exact ⟨.uciAllocContext none, .uciAlloc⟩
  | options =>
    exact ⟨.options (fun _ _ _ => (uciErrNotFound, ⟨false, none⟩)) ⟨false, none⟩,
      .options fun _ _ _ => nofun⟩
  | mqttInit o => exact ⟨.mqttInit oprtOk, .mqttInit⟩
  | ubusConnect => exact ⟨.ubusConnect none, .ubusConnect⟩
  | setupConnected => exact ⟨.mqttConnected true, .setupConnected⟩
  | cleanupEnd retVal => exact ⟨_, .cleanupEnd⟩
  | _ => cases h

def endurance {Attr Data : Type} (lib : Blobmsg Attr Data) :
    Endurance (program lib) environment where
  fatal _ := False
  callback hl := ⟨fun _ => id, fun _ => callback_total hl⟩
  link := linked_callback
  sends _ _ := ⟨_, rfl⟩
  answers := answer_of_awaits
  asked := awaits_of_ask

end TuyaDaemon.Openwrt
