import TuyaDaemon.Openwrt.Main

/-!
# What the daemon initialises the SDK with

The lookups are threaded through one structure. An option counts as read when its return
code is not UCI_ERR_NOTFOUND and the structure then holds a complete lookup of a string;
nothing says that the lookup itself filled it.
-/

namespace TuyaDaemon.Openwrt

set_option autoImplicit false

def uciOk : Int := 0

section Lookups
variable (lookups : Nat → UciLookup) (ptr : UciPtr)

/-- What the lookup of option `i` returns and what it leaves in the structure. -/
def answered : Nat → Int × UciPtr
  | 0 => lookups 0 (optionsConst[0]?.getD []) ptr
  | i + 1 => lookups (i + 1) (optionsConst[i + 1]?.getD []) (answered i).2

def StringFound (found : UciPtr) (value : CString) : Prop :=
  found.lookupComplete = true ∧ found.o = some ⟨.string, value⟩

def Passes (answer : Int × UciPtr) (value : CString) : Prop :=
  answer.1 ≠ uciErrNotFound ∧ StringFound answer.2 value

def LogLevelFound : Prop :=
  ∃ c : UInt8, 48 ≤ c ∧ c ≤ 55 ∧ StringFound (answered lookups ptr 3).2 [c]

end Lookups

theorem StringFound.unique {found : UciPtr} {v w : CString} (hv : StringFound found v)
    (hw : StringFound found w) : v = w := by
  have h := hv.2.symm.trans hw.2
  injection h with h
  injection h

section GetOption
variable {lookup : UciLookup} {option : CString} {ptr : UciPtr}

theorem uciCheckSuccess_eq_true_iff (ret : Int) (ptr : UciPtr) :
    uciCheckSuccess ret ptr = true ↔ ret ≠ uciErrNotFound ∧ ptr.lookupComplete = true := by
  unfold uciCheckSuccess
  by_cases hret : ret = uciErrNotFound
  · simp [hret]
  · cases ptr.lookupComplete <;> simp [hret]

theorem uciGetOption_ok {out : Option CString × UciPtr}
    (h : uciGetOption lookup option ptr = .ok out) :
    out.2 = (lookup option ptr).2 ∧ ∀ v, out.1 = some v → Passes (lookup option ptr) v := by
  unfold uciGetOption at h
  simp only [Bool.not_eq_true'] at h
  split at h
  · cases h
    refine ⟨rfl, ?_⟩
    intro v hv
    cases hv
  · rename_i hcheck
    obtain ⟨hret, hcomplete⟩ := (uciCheckSuccess_eq_true_iff _ _).mp (Bool.not_eq_false _ ▸ hcheck)
    cases ho : (lookup option ptr).2.o with
    | none =>
      simp only [ho, deref, bind, Except.bind] at h
      cases h
    | some o =>
      simp only [ho, deref_some, bind, Except.bind] at h
      split at h
      · cases h
        refine ⟨rfl, ?_⟩
        intro v hv
        cases hv
      · rename_i htype
        cases h
        refine ⟨rfl, ?_⟩
        rintro v ⟨⟩
        refine ⟨hret, hcomplete, ?_⟩
        rw [ho, ← not_not.mp htype]

theorem uciGetOption_of_passes {v : CString} (h : Passes (lookup option ptr) v) :
    uciGetOption lookup option ptr = .ok (some v, (lookup option ptr).2) := by
  obtain ⟨hret, hcomplete, ho⟩ := h
  have hcheck := (uciCheckSuccess_eq_true_iff _ _).mpr ⟨hret, hcomplete⟩
  simp [uciGetOption, hcheck, ho, bind, Except.bind]
  rfl

end GetOption

theorem strToDigit_eq_some_iff (str : CString) (n : Nat) :
    strToDigit str = some n ↔ ∃ c : UInt8, 48 ≤ c ∧ c ≤ 57 ∧ str = [c] ∧ n = c.toNat - 48 := by
  rcases str with _ | ⟨c, _ | ⟨d, str⟩⟩
  · simp [strToDigit]
  · simp only [strToDigit, Option.ite_none_left_eq_some, not_or, UInt8.not_lt, Option.some.injEq]
    constructor
    · rintro ⟨⟨hlow, hhigh⟩, rfl⟩
      exact ⟨c, hlow, hhigh, rfl, rfl⟩
    · rintro ⟨d, hlow, hhigh, hc, rfl⟩
      cases hc
      exact ⟨⟨hlow, hhigh⟩, rfl⟩
  · simp [strToDigit]

section Load
variable {lookups : Nat → UciLookup} {ptr : UciPtr}

theorem readOptions_passes {o : Options} (h : readOptions lookups ptr = .ok (some o)) :
    (∃ v, Passes (answered lookups ptr 0) v ∧ o.deviceId = v) ∧
    (∃ v, Passes (answered lookups ptr 1) v ∧ o.deviceSecret = v) ∧
    (∃ v, Passes (answered lookups ptr 2) v ∧ o.productId = v) ∧
    ∃ v n, Passes (answered lookups ptr 3) v ∧ strToDigit v = some n ∧
      logPriorities[n]? = some o.logMask := by
  simp only [readOptions, bind, Except.bind] at h
  split at h
  · cases h
  rename_i r₀ h₀
  obtain ⟨hptr₀, hv₀⟩ := uciGetOption_ok h₀
  split at h
  · cases h
  rename_i r₁ h₁
  obtain ⟨hptr₁, hv₁⟩ := uciGetOption_ok h₁
  split at h
  · cases h
  rename_i r₂ h₂
  obtain ⟨hptr₂, hv₂⟩ := uciGetOption_ok h₂
  split at h
  · cases h
  rename_i r₃ h₃
  obtain ⟨hptr₃, hv₃⟩ := uciGetOption_ok h₃
  -- the structure that each lookup is given is the one that its predecessor left
  rw [hptr₂, hptr₁, hptr₀] at hv₃
  rw [hptr₁, hptr₀] at hv₂
  rw [hptr₀] at hv₁
  split at h
  · rename_i id secret product level hid hsecret hproduct hlevel
    split at h
    · cases h
    · rename_i n hn
      split at h
      · cases h
      · split at h
        · cases h
        · rename_i mask hmask
          cases h
          exact ⟨⟨id, hv₀ id hid, rfl⟩, ⟨secret, hv₁ secret hsecret, rfl⟩,
            ⟨product, hv₂ product hproduct, rfl⟩, level, n, hv₃ level hlevel, hn, hmask⟩
  · cases h

theorem readOptions_of_passes {id secret product level : CString} {n : Nat}
    {mask : LogPriority} (hid : Passes (answered lookups ptr 0) id)
    (hsecret : Passes (answered lookups ptr 1) secret)
    (hproduct : Passes (answered lookups ptr 2) product)
    (hlevel : Passes (answered lookups ptr 3) level) (hn : strToDigit level = some n)
    (hmask : logPriorities[n]? = some mask) :
    readOptions lookups ptr = .ok (some ⟨id, secret, product, mask⟩) := by
  have hle : ¬ n > 7 := by
    have hlt := (List.getElem?_eq_some_iff.mp hmask).1
    change n < 8 at hlt
    omega
  have h₀ : uciGetOption (lookups 0) deviceIdOption ptr =
      .ok (some id, (answered lookups ptr 0).2) := uciGetOption_of_passes hid
  have h₁ : uciGetOption (lookups 1) deviceSecretOption (answered lookups ptr 0).2 =
      .ok (some secret, (answered lookups ptr 1).2) := uciGetOption_of_passes hsecret
  have h₂ : uciGetOption (lookups 2) productIdOption (answered lookups ptr 1).2 =
      .ok (some product, (answered lookups ptr 2).2) := uciGetOption_of_passes hproduct
  have h₃ : uciGetOption (lookups 3) logLevelOption (answered lookups ptr 2).2 =
      .ok (some level, (answered lookups ptr 3).2) := uciGetOption_of_passes hlevel
  simp only [readOptions, bind, Except.bind, h₀, h₁, h₂, h₃, hn, if_neg hle, hmask]
  rfl

end Load

section Init
variable (lookups : Nat → UciLookup) (ptr : UciPtr)

/-- With these lookups, `main` calls `init_connections` and this calls `tuya_mqtt_init`
with `config`. -/
def ReachesInit (o : Options) (config : TuyaMqttConfig) : Prop :=
  ∃ (m t u : Memory) (pc : Pc) (ret : Int),
    loadOptions (.options lookups ptr) m = some (.mqttInit o, t, []) ∧
    initMqtt o (.mqttInit ret) t = some (pc, u, [.mqttInit config ret])

/-- The options come from four successful lookups of their own. -/
structure ProperlyLoaded (o : Options) (config : TuyaMqttConfig) : Prop where
  returnedOk : ∀ i < optionsConst.length, (answered lookups ptr i).1 = uciOk
  found : ∀ i < optionsConst.length, ∃ v, StringFound (answered lookups ptr i).2 v
  deviceId : ∀ v, StringFound (answered lookups ptr 0).2 v → config.deviceId = some v
  deviceSecret : ∀ v, StringFound (answered lookups ptr 1).2 v → config.deviceSecret = some v
  logLevel : LogLevelFound lookups ptr
  logIndex : ∀ v, StringFound (answered lookups ptr 3).2 v →
    ∃ n, strToDigit v = some n ∧ n < logPriorities.length ∧ logPriorities[n]? = some o.logMask

variable {lookups ptr}

theorem reachesInit_iff (o : Options) (config : TuyaMqttConfig) :
    ReachesInit lookups ptr o config ↔ readOptions lookups ptr = .ok (some o) ∧
      config = tuyaMqttConfig (some o.deviceId) (some o.deviceSecret) := by
  constructor
  · rintro ⟨m, t, u, pc, ret, hload, hinit⟩
    simp only [loadOptions] at hload
    split at hload
    · cases hload
    · cases hload
    · rename_i hread
      cases hload
      refine ⟨hread, ?_⟩
      simp only [initMqtt] at hinit
      split at hinit
      · cases hinit
        rfl
      · cases hinit
        rfl
  · rintro ⟨hread, rfl⟩
    refine ⟨start.mem, start.mem, start.mem, .ubusConnect, oprtOk, ?_, rfl⟩
    simp only [loadOptions, hread]

theorem LogLevelFound.of_digit {v : CString} {n : Nat} {mask : LogPriority}
    (hv : StringFound (answered lookups ptr 3).2 v) (hn : strToDigit v = some n)
    (hmask : logPriorities[n]? = some mask) : LogLevelFound lookups ptr := by
  obtain ⟨c, hlow, _, rfl, rfl⟩ := (strToDigit_eq_some_iff v n).mp hn
  refine ⟨c, hlow, ?_, hv⟩
  have hlt := (List.getElem?_eq_some_iff.mp hmask).1
  change c.toNat - 48 < 8 at hlt
  rw [UInt8.le_iff_toNat_le] at hlow ⊢
  change 48 ≤ c.toNat at hlow
  change c.toNat ≤ 55
  omega

theorem LogLevelFound.digit (h : LogLevelFound lookups ptr) :
    ∃ v n mask, StringFound (answered lookups ptr 3).2 v ∧ strToDigit v = some n ∧
      logPriorities[n]? = some mask := by
  obtain ⟨c, hlow, hhigh, hv⟩ := h
  have hlt : c.toNat - 48 < logPriorities.length := by
    rw [UInt8.le_iff_toNat_le] at hhigh
    change c.toNat ≤ 55 at hhigh
    change c.toNat - 48 < 8
    omega
  refine ⟨[c], c.toNat - 48, logPriorities[c.toNat - 48], hv, ?_, List.getElem?_eq_getElem hlt⟩
  apply (strToDigit_eq_some_iff _ _).mpr
  have hmax : (55 : UInt8) ≤ 57 := by decide
  exact ⟨c, hlow, UInt8.le_trans hhigh hmax, rfl, rfl⟩

theorem ReachesInit.passes {o : Options} {config : TuyaMqttConfig}
    (h : ReachesInit lookups ptr o config) :
    ∀ i < optionsConst.length, ∃ v, Passes (answered lookups ptr i) v := by
  obtain ⟨⟨id, hid, _⟩, ⟨secret, hsecret, _⟩, ⟨product, hproduct, _⟩, level, _, hlevel, _⟩ :=
    readOptions_passes ((reachesInit_iff o config).mp h).1
  intro i hi
  change i < 4 at hi
  rcases i with _ | _ | _ | _ | i
  · exact ⟨id, hid⟩
  · exact ⟨secret, hsecret⟩
  · exact ⟨product, hproduct⟩
  · exact ⟨level, hlevel⟩
  · omega

theorem ReachesInit.loaded {o : Options} {config : TuyaMqttConfig}
    (h : ReachesInit lookups ptr o config)
    (hok : ∀ i < optionsConst.length, (answered lookups ptr i).1 = uciOk) :
    ProperlyLoaded lookups ptr o config := by
  have hpasses := h.passes
  obtain ⟨hread, rfl⟩ := (reachesInit_iff o config).mp h
  obtain ⟨⟨id, hid, hdev⟩, ⟨secret, hsecret, hsec⟩, _, level, n, hlevel, hn, hmask⟩ :=
    readOptions_passes hread
  refine ⟨hok, ?_, ?_, ?_, LogLevelFound.of_digit hlevel.2 hn hmask, ?_⟩
  · intro i hi
    obtain ⟨v, _, hv⟩ := hpasses i hi
    exact ⟨v, hv⟩
  · intro v hv
    rw [hv.unique hid.2, ← hdev]
    rfl
  · intro v hv
    rw [hv.unique hsecret.2, ← hsec]
    rfl
  · intro v hv
    rw [hv.unique hlevel.2]
    exact ⟨n, hn, (List.getElem?_eq_some_iff.mp hmask).1, hmask⟩

/-- `main` goes on when every lookup passes its check, failed or not. -/
theorem exists_reachesInit
    (hpass : ∀ i < optionsConst.length, ∃ v, Passes (answered lookups ptr i) v)
    (hlevel : LogLevelFound lookups ptr) : ∃ o config, ReachesInit lookups ptr o config := by
  obtain ⟨id, hid⟩ := hpass 0 (by decide)
  obtain ⟨secret, hsecret⟩ := hpass 1 (by decide)
  obtain ⟨product, hproduct⟩ := hpass 2 (by decide)
  obtain ⟨level, hlast⟩ := hpass 3 (by decide)
  obtain ⟨v, n, mask, hv, hn, hmask⟩ := hlevel.digit
  rw [hv.unique hlast.2] at hn
  have hread := readOptions_of_passes hid hsecret hproduct hlast hn hmask
  exact ⟨_, _, (reachesInit_iff _ _).mpr ⟨hread, rfl⟩⟩

variable (lookups ptr)

/-- Only UCI_ERR_NOTFOUND is taken for a failure. Options are loaded properly unless some
other failure leaves a structure that passes for an answer, and `main` does not give up
for another reason. -/
theorem loadsProperly_iff :
    (∀ o config, ReachesInit lookups ptr o config → ProperlyLoaded lookups ptr o config) ↔
      (∀ i < optionsConst.length, (answered lookups ptr i).1 = uciOk) ∨
      (∃ i < optionsConst.length, (answered lookups ptr i).1 = uciErrNotFound ∨
        ∀ v, ¬ StringFound (answered lookups ptr i).2 v) ∨
      ¬ LogLevelFound lookups ptr := by
  constructor
  · intro h
    by_contra hne
    simp only [not_or, not_not] at hne
    obtain ⟨hcode, hpass, hlevel⟩ := hne
    have hall : ∀ i < optionsConst.length, ∃ v, Passes (answered lookups ptr i) v := by
      intro i hi
      by_contra hnone
      apply hpass
      refine ⟨i, hi, ?_⟩
      rw [or_iff_not_imp_left]
      intro hret v hv
      exact hnone ⟨v, hret, hv⟩
    obtain ⟨o, config, hreach⟩ := exists_reachesInit hall hlevel
    exact hcode (h o config hreach).returnedOk
  · rintro (hok | ⟨i, hi, hfail⟩ | hlevel) o config hreach
    · exact hreach.loaded hok
    · exfalso
      obtain ⟨v, hret, hv⟩ := hreach.passes i hi
      rcases hfail with hcode | hfound
      · exact hret hcode
      · exact hfound v hv
    · exfalso
      obtain ⟨_, _, _, level, n, hlast, hn, hmask⟩ :=
        readOptions_passes ((reachesInit_iff o config).mp hreach).1
      exact hlevel (LogLevelFound.of_digit hlast.2 hn hmask)

end Init

/-- A lookup of the secret that fails with UCI_ERR_IO and leaves the structure as the
device id left it. -/
def staleSecret : Nat → UciLookup
  | 0 => fun _ _ => (uciOk, ⟨true, some ⟨.string, cstr "id"⟩⟩)
  | 1 => fun _ ptr => (4, ptr)
  | 2 => fun _ _ => (uciOk, ⟨true, some ⟨.string, cstr "product"⟩⟩)
  | _ => fun _ _ => (uciOk, ⟨true, some ⟨.string, cstr "6"⟩⟩)

theorem not_loadsProperly_stale_secret :
    ¬ ∀ o config, ReachesInit staleSecret ⟨false, none⟩ o config →
      ProperlyLoaded staleSecret ⟨false, none⟩ o config := by
  intro h
  have hread : readOptions staleSecret ⟨false, none⟩ =
      .ok (some ⟨cstr "id", cstr "id", cstr "product", .info⟩) := rfl
  have hload := h _ _ ((reachesInit_iff _ _).mpr ⟨hread, rfl⟩)
  have hret := hload.returnedOk 1 (by decide)
  revert hret
  decide

end TuyaDaemon.Openwrt
