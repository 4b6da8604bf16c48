import TuyaDaemon.Openwrt.UbusLifetime

/-!
# What the OpenWrt daemon acquires and releases

The calls of `main` that acquire or release something make a ledger, and the program point
determines it up to what the calls returned. Only the release of the ubus handle is not
in it: this happens in `on_disconnect`, once for every connection that was there.
-/

namespace TuyaDaemon.Openwrt

set_option autoImplicit false

open Daemon EventMachine

def isEntry : Event Effect → Bool
  | .own (.uciAllocContext _) => true
  | .own (.mqttInit _ _) => true
  | .own (.ubusConnect _) => true
  | .call .disconnect => true
  | .deinit => true
  | .own (.freeOptionName _) => true
  | .own (.uciFreeContext _) => true
  | _ => false

def ledger (es : List (Event Effect)) : List (Event Effect) := es.filter isEntry

/-- The ledger where `init_connections` is left, with the contexts that `main` holds. -/
inductive Opened : Option UciContext → Option UbusContext → List (Event Effect) → Prop where
  | initFailed (c : UciContext) (config : TuyaMqttConfig) {ret : Int} (hret : ret ≠ oprtOk) :
    Opened (some c) none [.own (.uciAllocContext (some c)), .own (.mqttInit config ret)]
  | noBus (c : UciContext) (config : TuyaMqttConfig) :
    Opened (some c) none [.own (.uciAllocContext (some c)), .own (.mqttInit config oprtOk),
      .own (.ubusConnect none)]
  | bus (c : UciContext) (config : TuyaMqttConfig) (h : UbusContext) :
    Opened (some c) (some h) [.own (.uciAllocContext (some c)), .own (.mqttInit config oprtOk),
      .own (.ubusConnect (some h))]

/-- The ledger at the label `cleanup_end`. -/
inductive Closed : Option UciContext → Option UbusContext → List (Event Effect) → Prop where
  | noContext : Closed none none [.own (.uciAllocContext none)]
  | noOptions (c : UciContext) : Closed (some c) none [.own (.uciAllocContext (some c))]
  | opened {uci : Option UciContext} {bus : Option UbusContext} {xs : List (Event Effect)}
    (h : Opened uci bus xs) : Closed uci bus (xs ++ [.call .disconnect, .deinit])

def released (uci : Option UciContext) : List (Event Effect) :=
  optionsConst.map (fun name => .own (.freeOptionName name)) ++ [.own (.uciFreeContext uci)]

/-- The ledger by program point. -/
def Entries (uci : Option UciContext) (bus : Option UbusContext) (l : List (Event Effect)) :
    Pc → Prop
  | .uciAlloc => bus = none ∧ l = []
  | .options => bus = none ∧ ∃ c, uci = some c ∧ l = [.own (.uciAllocContext (some c))]
  | .mqttInit _ => bus = none ∧ ∃ c, uci = some c ∧ l = [.own (.uciAllocContext (some c))]
  | .ubusConnect => bus = none ∧ ∃ c config, uci = some c ∧
      l = [.own (.uciAllocContext (some c)), .own (.mqttInit config oprtOk)]
  | .cleanupMqtt _ => Opened uci bus l
  | .mqttDeinit _ => ∃ xs, Opened uci bus xs ∧ l = xs ++ [.call .disconnect]
  | .cleanupEnd _ => Closed uci bus l
  | .exited _ => ∃ xs, Closed uci bus xs ∧ l = xs ++ released uci
  | _ => bus.isSome = true ∧ Opened uci bus l

theorem ledger_append (es fs : List (Event Effect)) :
    ledger (es ++ fs) = ledger es ++ ledger fs := List.filter_append ..

theorem ledger_eq_nil {es : List (Event Effect)} (h : ∀ e ∈ es, isEntry e = false) :
    ledger es = [] := by
  apply List.filter_eq_nil_iff.mpr
  intro e he
  simp [h e he]

theorem mem_ledger_iff {e : Event Effect} (he : isEntry e = true) (es : List (Event Effect)) :
    e ∈ ledger es ↔ e ∈ es := by
  simp [ledger, he]

theorem isEntry_of_ofCallback {e : Effect} (h : e.ofCallback = true) :
    isEntry (.own e) = false := by
  cases e <;> first
    | rfl
    | cases h

theorem ledger_sdk {gs : List Effect} (hgs : ∀ e ∈ gs, e.ofCallback = true) (c : SdkCall)
    (ret : Int) : ledger (.call c :: gs.map .own ++ [.returned c ret]) =
      if c = .disconnect then [.call .disconnect] else [] := by
  have hquiet : ledger (gs.map .own) = [] := by
    apply ledger_eq_nil
    intro e he
    obtain ⟨g, hg, rfl⟩ := List.mem_map.mp he
    exact isEntry_of_ofCallback (hgs g hg)
  have hreturned : ledger [.returned c ret] = [] := rfl
  rw [ledger_append, hreturned, List.append_nil]
  cases c with
  | disconnect => exact congrArg (List.cons _) hquiet
  | connect => exact hquiet
  | loop l => exact hquiet

section
variable {Attr Data : Type} {lib : Blobmsg Attr Data} {s t : State Pc Memory}
  {i : Input (UbusEnv Attr) (ActionEnv Attr) (UbusEnv Attr) Ask} {es : List (Event Effect)}

theorem ledger_send {gs : List Effect} {env : UbusEnv Attr} {m m' : Memory} {ok : Bool}
    (h : periodicSend lib env m = some (ok, m', gs)) :
    (m'.userData = m.userData ∧ m'.uciCtx = m.uciCtx) ∧
      ledger (.periodicSend :: gs.map .own ++ [.sent ok]) = [] := by
  obtain ⟨_, rfl, rfl⟩ := by simpa [periodicSend] using h
  refine ⟨⟨rfl, rfl⟩, ledger_eq_nil (List.forall_mem_append.mpr ⟨?_, ?_⟩)⟩
  · simp only [List.map_map, List.mem_cons, List.mem_map]
    rintro e (rfl | ⟨u, _, rfl⟩)
    · rfl
    · rfl
  · exact List.forall_mem_singleton.mpr rfl

/-! What leaves the ledger as it is. -/

section Quiet
variable {uci : Option UciContext} {bus : Option UbusContext} {l : List (Event Effect)} (pc : Pc)

theorem entries_quiet {fs : List (Event Effect)} (hfs : ∀ e ∈ fs, isEntry e = false)
    (hpc : Entries uci bus l pc) : Entries uci bus (l ++ ledger fs) pc := by
  rwa [ledger_eq_nil hfs, List.append_nil]

theorem entries_sdk {c : SdkCall} {callbacks : List (Callback (UbusEnv Attr) (ActionEnv Attr))}
    {ret : Int} {m m' : Memory} {gs : List Effect} (hc : c ≠ .disconnect)
    (hrun : Run (callback lib) m callbacks gs m') (hpc : Entries m.uciCtx m.userData l pc) :
    Entries m'.uciCtx m'.userData (l ++ ledger (.call c :: gs.map .own ++ [.returned c ret]))
      pc := by
  obtain ⟨⟨huser, huci⟩, hgs⟩ := callbacks_effects lib hrun
  rwa [huser, huci, ledger_sdk hgs, if_neg hc, List.append_nil]

variable {pc}

theorem entries_or_cleanup {p : Prop} [Decidable p] {retVal : Int} (ho : Opened uci bus l)
    (hpc : Entries uci bus l pc) :
    Entries uci bus l (if p then .cleanupMqtt retVal else pc) := by
  split
  · exact ho
  · exact hpc

end Quiet

/-- The calls that `main` makes once enter what they acquire or release. -/
theorem entries_ask {pc pc' : Pc} {next : Ask → Memory → Outcome} {a : Ask} {m m' : Memory}
    {gs : List Effect} {l : List (Event Effect)} (hi : instr pc = .ask next)
    (hs : Entries m.uciCtx m.userData l pc) (hask : next a m = some (pc', m', gs)) :
    Entries m'.uciCtx m'.userData (l ++ ledger (gs.map .own)) pc' := by
  cases pc with
  | uciAlloc =>
    obtain rfl := Instr.ask.inj hi
    obtain ⟨hbus, rfl⟩ := hs
    rcases allocUci_cases hask with ⟨rfl, rfl, rfl⟩ | ⟨c, rfl, rfl, rfl⟩
    · change Closed none m.userData _
      rw [hbus]
      exact .noContext
    · exact ⟨hbus, c, rfl, rfl⟩
  | options =>
    obtain rfl := Instr.ask.inj hi
    obtain ⟨hbus, c, huci, rfl⟩ := hs
    obtain ⟨hpc, rfl, rfl⟩ := loadOptions_cases hask
    rcases hpc with rfl | ⟨o, rfl⟩
    · change Closed m'.uciCtx m'.userData _
      rw [huci, hbus]
      exact .noOptions c
    · exact ⟨hbus, c, huci, rfl⟩
  | mqttInit o =>
    obtain rfl := Instr.ask.inj hi
    obtain ⟨hbus, c, huci, rfl⟩ := hs
    obtain ⟨rfl, config, ret, rfl, ⟨rfl, hret⟩ | ⟨rfl, rfl⟩⟩ := initMqtt_cases hask
    · change Opened m'.uciCtx m'.userData _
      rw [huci, hbus]
      exact .initFailed c config hret
    · exact ⟨hbus, c, config, huci, rfl⟩
  | ubusConnect =>
    obtain rfl := Instr.ask.inj hi
    obtain ⟨hbus, c, config, huci, rfl⟩ := hs
    rcases connectUbus_cases hask with ⟨rfl, rfl, rfl⟩ | ⟨ctx, rfl, rfl, rfl⟩
    · change Opened m.uciCtx m.userData _
      rw [huci, hbus]
      exact .noBus c config
    · refine ⟨rfl, ?_⟩
      change Opened m.uciCtx (some ctx) _
      rw [huci]
      exact .bus c config ctx
  | setupConnected =>
    obtain rfl := Instr.ask.inj hi
    obtain ⟨rfl, ⟨rfl, rfl⟩ | ⟨rfl, rfl⟩⟩ := askConnected_cases hask
    · rw [ledger_eq_nil (by simp [isEntry]), List.append_nil]
      exact hs
    · rw [ledger_eq_nil (by simp [isEntry]), List.append_nil]
      exact hs
  | cleanupEnd retVal =>
    obtain rfl := Instr.ask.inj hi
    obtain ⟨rfl, rfl, rfl⟩ := cleanUp_cases hask
    exact ⟨l, hs, rfl⟩
  | _ => cases hi

/-- One step, as far as the ledger is concerned. -/
theorem entries_step {l : List (Event Effect)}
    (hs : Entries s.mem.uciCtx s.mem.userData l s.pc)
    (hstep : step (program lib) s i = some (t, es)) :
    Entries t.mem.uciCtx t.mem.userData (l ++ ledger es) t.pc := by
  refine step_ensures
    (Q := fun t es => Entries t.mem.uciCtx t.mem.userData (l ++ ledger es) t.pc) hstep ?_ ?_
  · exact entries_quiet s.pc (by simp) hs
  obtain ⟨pc, k, m⟩ := s
  cases pc with
  | uciAlloc => exact fun _ _ _ _ hask => entries_ask rfl hs hask
  | options => exact fun _ _ _ _ hask => entries_ask rfl hs hask
  | mqttInit o => exact fun _ _ _ _ hask => entries_ask rfl hs hask
  | ubusConnect => exact fun _ _ _ _ hask => entries_ask rfl hs hask
  | connect =>
    intro _ ret _ _ hrun
    exact entries_sdk (.retryHead 0 2 ret) (by decide) hrun hs
  | retryHead j sleepSeconds ret =>
    constructor
    · intro _ _
      exact entries_quiet (.retrySleep j sleepSeconds) (by simp [isEntry]) hs
    · intro _
      exact entries_quiet _ (by simp) (entries_or_cleanup hs.2 hs)
  | retrySleep j sleepSeconds =>
    exact entries_quiet (.retryConnect j (sleepSeconds * 2)) (by simp [isEntry]) hs
  | retryConnect j sleepSeconds =>
    intro _ ret _ _ hrun
    exact entries_sdk (.retryHead (j + 1) sleepSeconds ret) (by decide) hrun hs
  | setupConnected => exact fun _ _ _ _ hask => entries_ask rfl hs hask
  | setupHead =>
    constructor
    · intro _ _
      exact entries_quiet .setupLoop (by simp [isEntry]) hs
    · intro _
      exact entries_quiet (.mainHead 0) (by simp) hs
  | setupLoop =>
    intro _ ret _ _ hrun
    exact entries_sdk _ (by decide) hrun (entries_or_cleanup hs.2 hs)
  | mainHead c =>
    constructor
    · intro _ _
      exact entries_quiet (.mainLoop c) (by simp [isEntry]) hs
    · intro _
      exact entries_quiet (.cleanupMqtt exitSuccess) (by simp) hs.2
  | mainLoop c =>
    intro _ ret _ _ hrun
    exact entries_sdk _ (by decide) hrun (entries_or_cleanup hs.2 hs)
  | mainSleep c => exact entries_quiet (.mainSend c) (by simp [isEntry]) hs
  | mainSend c =>
    intro env ok mem gs hsend
    obtain ⟨⟨huser, huci⟩, hquiet⟩ := ledger_send hsend
    simp only [huser, huci, hquiet, List.append_nil]
    cases ok with
    | true => exact hs
    | false => exact entries_or_cleanup hs.2 hs
  | cleanupMqtt retVal =>
    intro _ ret mem gs hrun
    obtain ⟨⟨huser, huci⟩, hgs⟩ := callbacks_effects lib hrun
    simp only [huser, huci, ledger_sdk hgs, if_true]
    exact ⟨l, hs, rfl⟩
  | mqttDeinit retVal =>
    obtain ⟨xs, hxs, rfl⟩ := hs
    change Closed m.uciCtx m.userData (xs ++ [.call .disconnect] ++ [.deinit])
    rw [List.append_assoc]
    exact .opened hxs
  | cleanupEnd retVal => exact fun _ _ _ _ hask => entries_ask rfl hs hask
  | exited retVal => trivial

end

/-! The ubus handle, which the callbacks release. -/

def onBus : Event Effect → Bool
  | .own .onConnected => true
  | .own (.ubusFree _) => true
  | _ => false

/-- Only the handle in `user_data` is released, once for every connection that was established
and is gone. -/
structure BusBooks (m : Memory) (h : List (Event Effect)) : Prop where
  frees : ∀ ctx, .own (.ubusFree ctx) ∈ h → ctx = m.userData
  link : h.count (.own .onConnected) = h.count (.own (.ubusFree m.userData)) + m.linked.toNat

theorem not_mem_of_offBus {es : List (Event Effect)} (h : ∀ e ∈ es, onBus e = false)
    {e : Event Effect} (he : onBus e = true) : e ∉ es := by
  intro hmem
  rw [h e hmem] at he
  cases he

theorem count_of_offBus {es : List (Event Effect)} (h : ∀ e ∈ es, onBus e = false)
    {e : Event Effect} (he : onBus e = true) : es.count e = 0 :=
  List.count_eq_zero.mpr (not_mem_of_offBus h he)

namespace BusBooks
variable {m m' : Memory} {h es : List (Event Effect)}

theorem append_offBus (hb : BusBooks m h) (hl : m'.linked = m.linked)
    (hu : m'.userData = m.userData) (hes : ∀ e ∈ es, onBus e = false) :
    BusBooks m' (h ++ es) := by
  constructor
  · intro ctx hmem
    rw [hu]
    exact hb.frees ctx ((List.mem_append.mp hmem).resolve_right (not_mem_of_offBus hes rfl))
  · rw [hl, hu, List.count_append, List.count_append, count_of_offBus hes rfl,
      count_of_offBus hes rfl]
    exact hb.link

/-- As long as nothing concerns the handle, the memory may change as it likes. -/
theorem of_offBus (hl : m.linked = false) (hh : ∀ e ∈ h, onBus e = false) : BusBooks m h := by
  constructor
  · intro ctx hmem
    exact absurd hmem (not_mem_of_offBus hh rfl)
  · rw [hl, count_of_offBus hh rfl, count_of_offBus hh rfl]
    rfl

theorem connected (hb : BusBooks m h) (hl : m.linked = false) (hl' : m'.linked = true)
    (hu : m'.userData = m.userData) : BusBooks m' (h ++ [.own .onConnected]) := by
  constructor
  · intro ctx hmem
    rw [hu]
    exact hb.frees ctx (by simpa using hmem)
  · have hlink := hb.link
    rw [hl] at hlink
    rw [hl', hu, List.count_append, List.count_append, hlink]
    rfl

theorem disconnected (hb : BusBooks m h) (hl : m.linked = true) (hl' : m'.linked = false)
    (hu : m'.userData = m.userData) :
    BusBooks m' (h ++ [.own .onDisconnect, .own (.ubusFree m.userData)]) := by
  constructor
  · intro ctx hmem
    rw [hu]
    rcases List.mem_append.mp hmem with hmem | hmem
    · exact hb.frees ctx hmem
    · simpa using hmem
  · have hlink := hb.link
    rw [hl] at hlink
    rw [hl', hu, List.count_append, List.count_append, hlink]
    simp

theorem callback {Attr Data : Type} {lib : Blobmsg Attr Data} (hb : BusBooks m h)
    {cb : Callback (UbusEnv Attr) (ActionEnv Attr)} {gs : List Effect}
    (hstep : Openwrt.callback lib m cb = some (m', gs)) : BusBooks m' (h ++ gs.map .own) := by
  rcases callback_cases hstep with ⟨env, hl, rfl, rfl⟩ | ⟨msg, env, next, fs, hl, hfs, rfl, rfl⟩ |
    ⟨hl, rfl, rfl⟩
  · rw [List.map_cons, List.append_cons]
    have hconnected : BusBooks { m with linked := true } (h ++ [.own .onConnected]) :=
      hb.connected hl rfl rfl
    refine hconnected.append_offBus rfl rfl ?_
    intro e he
    obtain ⟨g, hg, rfl⟩ := List.mem_map.mp he
    obtain ⟨u, _, rfl⟩ := List.mem_map.mp hg
    rfl
  · refine hb.append_offBus hl.symm rfl ?_
    intro e he
    obtain ⟨g, hg, rfl⟩ := List.mem_map.mp he
    rcases List.mem_cons.mp hg with rfl | hg
    · rfl
    · have hmsg := onMessages_effects lib m.userData env m.next hfs g hg
      cases g <;> first
        | rfl
        | cases hmsg
  · exact hb.disconnected hl rfl rfl

theorem callbacks {Attr Data : Type} {lib : Blobmsg Attr Data} (hb : BusBooks m h)
    {cbs : List (Callback (UbusEnv Attr) (ActionEnv Attr))} {gs : List Effect}
    (run : Run (Openwrt.callback lib) m cbs gs m') : BusBooks m' (h ++ gs.map .own) := by
  have hrun := run.history (P := fun t gs => BusBooks t (h ++ gs.map .own)) ?_ (h := [])
    (by simpa using hb)
  · exact hrun
  · intro s i t gs ks hs hstep
    rw [List.map_append, ← List.append_assoc]
    exact hs.callback hstep

end BusBooks

theorem offBus_of_not_concerns {e : Event Effect} (h : concerns e = false) : onBus e = false := by
  unfold onBus
  split
  · cases h
  · cases h
  · rfl

theorem ask_offBus {pc pc' : Pc} {next : Ask → Memory → Outcome} {a : Ask} {m m' : Memory}
    {gs : List Effect} (hi : instr pc = .ask next) (hask : next a m = some (pc', m', gs)) :
    m'.linked = m.linked ∧ ∀ e ∈ gs.map Event.own, onBus e = false := by
  cases pc with
  | uciAlloc =>
    obtain rfl := Instr.ask.inj hi
    rcases allocUci_cases hask with ⟨_, rfl, rfl⟩ | ⟨_, _, rfl, rfl⟩
    · exact ⟨rfl, by simp [onBus]⟩
    · exact ⟨rfl, by simp [onBus]⟩
  | options =>
    obtain rfl := Instr.ask.inj hi
    obtain ⟨_, rfl, rfl⟩ := loadOptions_cases hask
    exact ⟨rfl, by simp⟩
  | mqttInit o =>
    obtain rfl := Instr.ask.inj hi
    obtain ⟨rfl, _, _, rfl, _⟩ := initMqtt_cases hask
    exact ⟨rfl, by simp [onBus]⟩
  | ubusConnect =>
    obtain rfl := Instr.ask.inj hi
    rcases connectUbus_cases hask with ⟨_, rfl, rfl⟩ | ⟨_, _, rfl, rfl⟩
    · exact ⟨rfl, by simp [onBus]⟩
    · exact ⟨rfl, by simp [onBus]⟩
  | setupConnected =>
    obtain rfl := Instr.ask.inj hi
    obtain ⟨rfl, ⟨_, rfl⟩ | ⟨_, rfl⟩⟩ := askConnected_cases hask
    · exact ⟨rfl, by simp [onBus]⟩
    · exact ⟨rfl, by simp [onBus]⟩
  | cleanupEnd retVal =>
    obtain rfl := Instr.ask.inj hi
    obtain ⟨_, rfl, rfl⟩ := cleanUp_cases hask
    exact ⟨rfl, by simp [onBus, optionsConst]⟩
  | _ => cases hi

/-- Everything that holds of the memory and the events after any run. -/
structure Books (s : State Pc Memory) (h : List (Event Effect)) : Prop where
  progress : Progress s h
  entries : Entries s.mem.uciCtx s.mem.userData (ledger h) s.pc
  bus : BusBooks s.mem h

section
variable {Attr Data : Type} {lib : Blobmsg Attr Data} {s t : State Pc Memory}
  {i : Input (UbusEnv Attr) (ActionEnv Attr) (UbusEnv Attr) Ask} {es h : List (Event Effect)}

theorem Books.bus_step (hs : Books s h) (hstep : step (program lib) s i = some (t, es)) :
    BusBooks t.mem (h ++ es) := by
  cases transition_of_step hstep with
  | signal => exact hs.bus.append_offBus rfl rfl (by simp)
  | enter => exact hs.bus.append_offBus rfl rfl (by simp [onBus])
  | leave => exact hs.bus.append_offBus rfl rfl (by simp)
  | sleep => exact hs.bus.append_offBus rfl rfl (by simp [onBus])
  | deinit => exact hs.bus.append_offBus rfl rfl (by simp [onBus])
  | @sdk c next callbacks ret mem gs hi hrun =>
    have hcall : BusBooks s.mem (h ++ [.call c]) := hs.bus.append_offBus rfl rfl (by simp [onBus])
    have hreturned : BusBooks mem (h ++ [.call c] ++ gs.map .own ++ [.returned c ret]) :=
      (hcall.callbacks hrun).append_offBus rfl rfl (by simp [onBus])
    simpa using hreturned
  | @send next env ok mem gs hi hsend =>
    obtain ⟨_, rfl, rfl⟩ := by simpa [program, periodicSend] using hsend
    refine hs.bus.append_offBus rfl rfl (List.forall_mem_append.mpr ⟨?_, ?_⟩)
    · simp only [List.map_map, List.mem_cons, List.mem_map]
      rintro e (rfl | ⟨u, _, rfl⟩)
      · rfl
      · rfl
    · exact List.forall_mem_singleton.mpr rfl
  | @ask next a pc mem gs hi hask =>
    obtain ⟨hlinked, hgs⟩ := ask_offBus hi hask
    cases hpc : early s.pc with
    | false =>
      obtain ⟨_, _, _, rfl, _⟩ := late_ask hpc hi hask
      exact hs.bus.append_offBus rfl rfl hgs
    | true =>
      cases hs.progress with
      | failed h' _ => rw [not_ending_of_early hpc] at h'; cases h'
      | holding _ _ h' _ _ => rw [hpc] at h'; cases h'
      | before _ hn =>
        have hh : ∀ e ∈ h, onBus e = false := fun e he => offBus_of_not_concerns (hn e he)
        have hdown : s.mem.linked = false := by
          have hnone : h.count (.own .onConnected) = 0 := count_of_offBus hh rfl
          rw [hs.bus.link, Nat.add_eq_zero_iff, Bool.toNat_eq_zero] at hnone
          exact hnone.2
        apply BusBooks.of_offBus (hlinked.trans hdown)
        exact List.forall_mem_append.mpr ⟨hh, hgs⟩

theorem Books.keep (hs : Books s h) (hstep : step (program lib) s i = some (t, es)) :
    Books t (h ++ es) := by
  refine ⟨hs.progress.step hstep, ?_, hs.bus_step hstep⟩
  rw [ledger_append]
  exact entries_step hs.entries hstep

theorem books_start : Books start [] :=
  ⟨.before rfl (by simp), ⟨rfl, rfl⟩, by simp, by simp [start]⟩

end

/-! What is released by the time main returns. -/

/-- A call of `tuya_mqtt_init`, which may have failed. -/
def initCalled : Event Effect → Bool
  | .own (.mqttInit _ _) => true
  | _ => false

def initialises : Event Effect → Bool
  | .own (.mqttInit _ ret) => ret == oprtOk
  | _ => false

def returnsHandle : Event Effect → Bool
  | .own (.ubusConnect ctx) => ctx.isSome
  | _ => false

/-- Every resource is released as often as it was acquired, and never before. -/
structure ReleasesAcquired (es : List (Event Effect)) : Prop where
  uciContext : ∀ c, Balanced (· == .own (.uciAllocContext (some c)))
    (· == .own (.uciFreeContext (some c))) es
  uciNull : .own (.uciFreeContext none) ∉ es
  disconnect : Balanced initialises (· == .call .disconnect) es
  deinit : Balanced initialises (· == .deinit) es
  ubusHandle : ∀ h, Balanced (· == .own (.ubusConnect (some h)))
    (· == .own (.ubusFree (some h))) es
  ubusNull : .own (.ubusFree none) ∉ es
  optionNames : ∀ name ∈ optionsConst, es.count (.own (.freeOptionName name)) = 1

/-- What a complete ledger says, with the contexts that `main` ended up with. -/
structure Account (uci : Option UciContext) (bus : Option UbusContext)
    (es : List (Event Effect)) : Prop where
  alloc : ∀ ctx, es.count (.own (.uciAllocContext ctx)) = if uci = ctx then 1 else 0
  uciFree : ∀ ctx, es.count (.own (.uciFreeContext ctx)) = if uci = ctx then 1 else 0
  optionNames : ∀ name ∈ optionsConst, es.count (.own (.freeOptionName name)) = 1
  disconnect : es.count (.call .disconnect) = es.countP initCalled
  deinit : es.count .deinit = es.countP initCalled
  initOnce : es.countP initCalled ≤ 1
  handle : ∀ h, es.count (.own (.ubusConnect (some h))) = if bus = some h then 1 else 0
  handles : es.countP returnsHandle = if bus.isSome then 1 else 0
  uciOrder : ∀ c, Precedes
    (fun xs => ∃ a ∈ xs, (a == .own (.uciAllocContext (some c))) = true)
    (.own (.uciFreeContext (some c))) es
  initOrder : ∀ e, e = .call .disconnect ∨ e = .deinit →
    Precedes (fun xs => ∃ a ∈ xs, initCalled a = true) e es

theorem eq_of_countP_le_one {ε : Type} {p : ε → Bool} {es : List ε} (h : es.countP p ≤ 1)
    {a b : ε} (ha : a ∈ es) (hpa : p a = true) (hb : b ∈ es) (hpb : p b = true) : a = b := by
  rw [List.countP_eq_length_filter] at h
  have ha' := List.mem_filter.mpr ⟨ha, hpa⟩
  have hb' := List.mem_filter.mpr ⟨hb, hpb⟩
  generalize es.filter p = l at h ha' hb'
  match l, h with
  | [c], _ => exact (List.mem_singleton.mp ha').trans (List.mem_singleton.mp hb').symm

theorem count_ledger {e : Event Effect} (he : isEntry e = true) (es : List (Event Effect)) :
    (ledger es).count e = es.count e := List.count_filter he

theorem countP_ledger {p : Event Effect → Bool} (hp : ∀ e, p e = true → isEntry e = true)
    (es : List (Event Effect)) : (ledger es).countP p = es.countP p := by
  rw [ledger, List.countP_filter]
  apply List.countP_congr
  intro e _
  simpa using hp e

theorem count_optionName {uci : Option UciContext} {name : CString} (h : name ∈ optionsConst) :
    (released uci).count (.own (.freeOptionName name)) = 1 := by
  have hnames : ∀ name ∈ optionsConst, (optionsConst.map (fun name =>
      (.own (.freeOptionName name) : Event Effect))).count (.own (.freeOptionName name)) = 1 := by
    decide
  rw [released, List.count_append, hnames name h]
  rfl

theorem Closed.uciOrder {uci : Option UciContext} {bus : Option UbusContext}
    {xs : List (Event Effect)} (h : Closed uci bus xs) (c : UciContext) :
    Precedes (fun xs => ∃ a ∈ xs, (a == .own (.uciAllocContext (some c))) = true)
      (.own (.uciFreeContext (some c))) (xs ++ released uci) := by
  by_cases hc : uci = some c
  · subst hc
    have hfirst : ∃ ys, xs = .own (.uciAllocContext (some c)) :: ys := by
      rcases h with _ | c | ⟨⟨⟩⟩ <;> exact ⟨_, rfl⟩
    obtain ⟨ys, rfl⟩ := hfirst
    exact .cons nofun fun _ _ _ => ⟨_, List.mem_cons_self, by simp⟩
  · have hxs : .own (.uciFreeContext (some c)) ∉ xs := by
      rcases h with _ | c | ⟨⟨⟩⟩ <;> simp
    have hreleased : .own (.uciFreeContext (some c)) ∉ released uci := by
      simpa [released, eq_comm] using hc
    exact .of_not_mem (List.not_mem_append hxs hreleased)

theorem Closed.initOrder {uci : Option UciContext} {bus : Option UbusContext}
    {xs : List (Event Effect)} (h : Closed uci bus xs) {e : Event Effect}
    (he : e = .call .disconnect ∨ e = .deinit) :
    Precedes (fun xs => ∃ a ∈ xs, initCalled a = true) e (xs ++ released uci) := by
  have hne : ∀ a, .own a ≠ e := by rcases he with rfl | rfl <;> nofun
  have hopened : ∀ a config ret (l : List (Event Effect)),
      Precedes (fun xs => ∃ a ∈ xs, initCalled a = true) e
        (.own a :: .own (.mqttInit config ret) :: l) := by
    intro a config ret l
    refine .cons (hne _) (.cons (hne _) fun xs _ _ => ?_)
    exact ⟨_, List.mem_cons_of_mem _ List.mem_cons_self, rfl⟩
  rcases h with _ | c | ⟨⟨⟩⟩
  · apply Precedes.of_not_mem
    rcases he with rfl | rfl <;> simp [released]
  · apply Precedes.of_not_mem
    rcases he with rfl | rfl <;> simp [released]
  · exact hopened _ _ _ _
  · exact hopened _ _ _ _
  · exact hopened _ _ _ _

/-- The account of a complete ledger, case by case. -/
theorem Closed.account_ledger {uci : Option UciContext} {bus : Option UbusContext}
    {xs : List (Event Effect)} (h : Closed uci bus xs) : Account uci bus (xs ++ released uci) := by
  constructor
  · intro ctx
    rcases h with _ | c | ⟨⟨⟩⟩ <;> simp [released, optionsConst, List.count_cons]
  · intro ctx
    rcases h with _ | c | ⟨⟨⟩⟩ <;> simp [released, optionsConst, List.count_cons]
  · intro name hname
    rw [List.count_append, count_optionName hname]
    rcases h with _ | c | ⟨⟨⟩⟩ <;> simp
  · rcases h with _ | c | ⟨⟨⟩⟩ <;> simp [released, optionsConst, List.countP_cons, initCalled]
  · rcases h with _ | c | ⟨⟨⟩⟩ <;> simp [released, optionsConst, List.countP_cons, initCalled]
  · rcases h with _ | c | ⟨⟨⟩⟩ <;> simp [released, optionsConst, List.countP_cons, initCalled]
  · intro b
    rcases h with _ | c | ⟨⟨⟩⟩ <;> simp [released, optionsConst, List.count_cons]
  · rcases h with _ | c | ⟨⟨⟩⟩ <;> simp [released, optionsConst, List.countP_cons, returnsHandle]
  · exact h.uciOrder
  · exact fun e => h.initOrder

theorem Account.of_ledger {uci : Option UciContext} {bus : Option UbusContext}
    {es : List (Event Effect)} (h : Account uci bus (ledger es)) : Account uci bus es := by
  have hcalled : (ledger es).countP initCalled = es.countP initCalled := by
    apply countP_ledger
    intro e he
    unfold initCalled at he
    split at he
    · rfl
    · cases he
  have hreturns : (ledger es).countP returnsHandle = es.countP returnsHandle := by
    apply countP_ledger
    intro e he
    unfold returnsHandle at he
    split at he
    · rfl
    · cases he
  constructor
  · intro ctx
    rw [← count_ledger rfl]
    exact h.alloc ctx
  · intro ctx
    rw [← count_ledger rfl]
    exact h.uciFree ctx
  · intro name hname
    rw [← count_ledger rfl]
    exact h.optionNames name hname
  · rw [← count_ledger rfl, ← hcalled]
    exact h.disconnect
  · rw [← count_ledger rfl, ← hcalled]
    exact h.deinit
  · rw [← hcalled]
    exact h.initOnce
  · intro b
    rw [← count_ledger rfl]
    exact h.handle b
  · rw [← hreturns]
    exact h.handles
  · exact fun c => .of_filter rfl (h.uciOrder c)
  · intro e he
    refine .of_filter ?_ (h.initOrder e he)
    rcases he with rfl | rfl <;> rfl

section
variable {Attr Data : Type} {lib : Blobmsg Attr Data} {t : State Pc Memory}
  {is : List (Input (UbusEnv Attr) (ActionEnv Attr) (UbusEnv Attr) Ask)}
  {es : List (Event Effect)} {retVal : Int}

theorem books_of_run (run : Run (step (program lib)) start is es t) : Books t es :=
  run.history (P := Books) (fun hs hstep => hs.keep hstep) (h := []) books_start

/-- Callbacks run in calls of the SDK, where `main` has the contexts that it opened. -/
theorem opened_of_sdk {pc : Pc} {c : SdkCall} {next : Int → Pc} {uci : Option UciContext}
    {bus : Option UbusContext} {l : List (Event Effect)} (hi : instr pc = .sdk c next)
    (h : Entries uci bus l pc) : Opened uci bus l := by
  cases pc with
  | connect => exact h.2
  | retryConnect i sleepSeconds => exact h.2
  | setupLoop => exact h.2
  | mainLoop n => exact h.2
  | cleanupMqtt retVal => exact h
  | _ => cases hi

theorem Opened.ubusConnect_mem {uci : Option UciContext} {b : UbusContext}
    {l : List (Event Effect)} (h : Opened uci (some b) l) : .own (.ubusConnect (some b)) ∈ l := by
  cases h
  simp

/-- A handle is freed after it was returned. -/
theorem ubusFree_after_connect (run : Run (step (program lib)) start is es t) (b : UbusContext) :
    Precedes (fun xs => ∃ a ∈ xs, (a == .own (.ubusConnect (some b))) = true)
      (.own (.ubusFree (some b))) es := by
  refine run.precedes (P := Books) (fun hs hstep => hs.keep hstep) ?_ books_start
  intro s i t h es xs ys hs hstep heq
  have hmem : .own (.ubusFree (some b)) ∈ es := heq ▸ List.mem_append_right xs List.mem_cons_self
  have hbus := (hs.bus_step hstep).frees _ (List.mem_append_right h hmem)
  cases transition_of_step hstep with
  | @sdk c next callbacks ret mem gs hi hrun =>
    obtain ⟨⟨huser, _⟩, _⟩ := callbacks_effects lib hrun
    rw [huser] at hbus
    have hopened := opened_of_sdk hi hs.entries
    rw [← hbus] at hopened
    have hconnect := (mem_ledger_iff rfl h).mp hopened.ubusConnect_mem
    exact ⟨_, List.mem_append_left _ hconnect, beq_self_eq_true _⟩
  | @send next env ok mem gs hi hsend =>
    obtain ⟨_, rfl, rfl⟩ := by simpa [program, periodicSend] using hsend
    simp at hmem
  | ask hi hask => exact absurd hmem (not_mem_of_offBus (ask_offBus hi hask).2 rfl)
  | _ => simp at hmem

theorem BusBooks.count_ubusFree {m : Memory} {h : List (Event Effect)} (hb : BusBooks m h)
    (hl : m.linked = false) (ctx : Option UbusContext) : h.count (.own (.ubusFree ctx)) =
      if m.userData = ctx then h.count (.own .onConnected) else 0 := by
  split
  · rename_i huser
    have hlink := hb.link
    rw [hl, huser] at hlink
    exact hlink.symm
  · rename_i huser
    exact List.count_eq_zero.mpr fun hmem => huser (hb.frees ctx hmem).symm

theorem Account.init_ok {uci : Option UciContext} {bus : Option UbusContext}
    (hacc : Account uci bus es) (h : Balanced initialises (· == .call .disconnect) es)
    {config : TuyaMqttConfig} {ret : Int} (hinit : .own (.mqttInit config ret) ∈ es) :
    ret = oprtOk := by
  have hcount : es.countP initialises = es.countP initCalled :=
    h.settled.symm.trans hacc.disconnect
  have hpos : 0 < es.countP initCalled := List.countP_pos_iff.mpr ⟨_, hinit, rfl⟩
  obtain ⟨e, he, hok⟩ := List.countP_pos_iff.mp (hcount ▸ hpos)
  have hcalled : initCalled e = true := by
    unfold initialises at hok
    split at hok
    · rfl
    · cases hok
  obtain rfl := eq_of_countP_le_one hacc.initOnce he hcalled hinit rfl
  exact eq_of_beq hok

/-- Where every call of `tuya_mqtt_init` succeeds, the context is closed once. -/
theorem Account.balanced_of_init_ok {uci : Option UciContext} {bus : Option UbusContext}
    (hacc : Account uci bus es)
    (hinit : ∀ config ret, .own (.mqttInit config ret) ∈ es → ret = oprtOk) {e : Event Effect}
    (he : e = .call .disconnect ∨ e = .deinit) (hcount : es.count e = es.countP initCalled) :
    Balanced initialises (· == e) es := by
  have hiff : ∀ a ∈ es, initialises a = true ↔ initCalled a = true := by
    intro a ha
    unfold initialises initCalled
    split
    · rename_i config ret
      simp [hinit config ret ha]
    · rfl
  have hall : es.countP initialises = es.countP initCalled := List.countP_congr hiff
  refine .of_once (hcount.trans hall.symm) (hcount.trans_le hacc.initOnce) fun e' he' => ?_
  obtain rfl := eq_of_beq he'
  rintro xs ys rfl
  obtain ⟨a, ha, hcalled⟩ := hacc.initOrder e' he xs ys rfl
  exact ⟨a, ha, (hiff a (List.mem_append_left _ ha)).mpr hcalled⟩

section
variable {uci : Option UciContext} {bus : Option UbusContext}

theorem Account.alloc_none_iff (hacc : Account uci bus es) :
    .own (.uciAllocContext none) ∉ es ↔ uci ≠ none := by
  rw [← List.count_eq_zero, hacc.alloc]
  simp

theorem Account.free_none_iff (hacc : Account uci bus es) :
    .own (.uciFreeContext none) ∉ es ↔ uci ≠ none := by
  rw [← List.count_eq_zero, hacc.uciFree]
  simp

theorem Account.uci_balanced (hacc : Account uci bus es) (c : UciContext) :
    Balanced (· == .own (.uciAllocContext (some c))) (· == .own (.uciFreeContext (some c))) es := by
  refine .of_once ((hacc.uciFree (some c)).trans (hacc.alloc (some c)).symm) ?_ fun e he => ?_
  · exact (hacc.uciFree (some c)).trans_le (by split <;> omega)
  · obtain rfl := eq_of_beq he
    exact hacc.uciOrder c

/-- The handle is freed for every connection, so just once if there was one connection. -/
theorem Account.handle_freed_once_iff (hacc : Account uci bus es)
    (hfree : ∀ ctx, es.count (.own (.ubusFree ctx)) =
      if bus = ctx then es.count (.own .onConnected) else 0) :
    es.count (.own .onConnected) = es.countP returnsHandle ↔
      .own (.ubusFree none) ∉ es ∧
        ∀ h, es.count (.own (.ubusFree (some h))) = es.count (.own (.ubusConnect (some h))) := by
  rw [hacc.handles, ← List.count_eq_zero]
  simp only [hfree, hacc.handle]
  cases bus with
  | none => simp
  | some b =>
    constructor
    · intro hconn
      exact ⟨if_neg nofun, fun h => by rw [hconn]; rfl⟩
    · intro h
      simpa using h.2 b

end

/-- What `main` releases is what it acquired, in every run to its end in which the SDK has
called `on_disconnect` for a connection it closed, exactly if the two contexts could be set
up and a connection to Tuya was established once if there was a ubus handle to release, and
never if there was none. -/
theorem releasesAcquired_iff (run : Run (step (program lib)) start is es t)
    (hexit : t.pc = .exited retVal) (hclosed : t.mem.linked = false) :
    ReleasesAcquired es ↔
      .own (.uciAllocContext none) ∉ es ∧
      (∀ config ret, .own (.mqttInit config ret) ∈ es → ret = oprtOk) ∧
      es.count (.own .onConnected) = es.countP returnsHandle := by
  obtain ⟨_, hentries, hbus⟩ := books_of_run run
  rw [hexit] at hentries
  obtain ⟨xs, hxs, hledger⟩ := hentries
  have hacc : Account t.mem.uciCtx t.mem.userData es :=
    .of_ledger (hledger ▸ hxs.account_ledger)
  rw [hacc.handle_freed_once_iff (hbus.count_ubusFree hclosed), hacc.alloc_none_iff,
    ← hacc.free_none_iff]
  constructor
  · intro h
    exact ⟨h.uciNull, fun config ret => hacc.init_ok h.disconnect, h.ubusNull,
      fun b => (h.ubusHandle b).settled⟩
  · rintro ⟨huci, hinit, hnull, hsettled⟩
    refine ⟨hacc.uci_balanced, huci, hacc.balanced_of_init_ok hinit (Or.inl rfl) hacc.disconnect,
      hacc.balanced_of_init_ok hinit (Or.inr rfl) hacc.deinit, fun b => ?_, hnull, hacc.optionNames⟩
    refine .of_once (hsettled b) ?_ fun e he => ?_
    · exact ((hsettled b).trans (hacc.handle b)).trans_le (by split <;> omega)
    · obtain rfl := eq_of_beq he
      exact ubusFree_after_connect run b

end

def foundOptions : Ask :=
  .options (fun _ _ _ => (0, ⟨true, some ⟨.string, cstr "7"⟩⟩)) ⟨false, none⟩

/-- A bus without services. -/
def emptyBus : UbusEnv Blob := { Blob.answering 0 [] ⟨false, 0, []⟩ with lookupId _ := (4, 0) }

/-- The connection comes up in `tuya_mqtt_connect`, a signal follows, and it is closed. -/
def wholeLife : List BlobInput :=
  [.answer (.uciAllocContext (some ⟨1⟩)), .answer foundOptions, .answer (.mqttInit oprtOk),
    .answer (.ubusConnect (some ⟨5⟩)), .returned [.onConnected emptyBus] oprtOk, .tick,
    .answer (.mqttConnected true), .signal, .tick, .returned [.onDisconnect] oprtOk, .tick,
    .answer .cleanup]

def wholeLifeEvents : List (Event Effect) :=
  [.own (.uciAllocContext (some ⟨1⟩)),
    .own (.mqttInit (tuyaMqttConfig (some (cstr "7")) (some (cstr "7"))) oprtOk),
    .own (.ubusConnect (some ⟨5⟩)), .call .connect, .own .onConnected,
    .own (.ubus (.lookupId (some ⟨5⟩) (cstr "system"))), .returned .connect oprtOk,
    .own (.mqttConnected true), .call .disconnect, .own .onDisconnect, .own (.ubusFree (some ⟨5⟩)),
    .returned .disconnect oprtOk, .deinit] ++ released (some ⟨1⟩)

theorem releasesAcquired_iff_whole_life : ∃ t,
    Run (step (program Blob.blobmsg)) start wholeLife wholeLifeEvents t ∧
      ReleasesAcquired wholeLifeEvents := by
  have hrun : Run (step (program Blob.blobmsg)) start wholeLife wholeLifeEvents _ :=
    run_of_exec rfl
  refine ⟨_, hrun, (releasesAcquired_iff hrun rfl rfl).mpr ⟨?_, ?_, ?_⟩⟩
  · simp [wholeLifeEvents, released]
  · simp [wholeLifeEvents, released]
  · decide +kernel

/-- `tuya_mqtt_init` fails, and the context is disconnected and deinitialised all the same. -/
def initFails : List BlobInput :=
  [.answer (.uciAllocContext (some ⟨1⟩)), .answer foundOptions, .answer (.mqttInit (-1)),
    .returned [] oprtOk, .tick, .answer .cleanup]

theorem not_releasesAcquired_init_fails :
    ¬ ∀ is es t retVal, Run (step (program Blob.blobmsg)) start is es t →
      t.pc = .exited retVal → t.mem.linked = false → ReleasesAcquired es := by
  intro h
  have hrun := @run_of_exec _ _ _ (step (program Blob.blobmsg)) start _ initFails _ rfl
  have hsettled := (h _ _ _ _ hrun rfl rfl).disconnect.settled
  exact absurd hsettled (by decide +kernel)

end TuyaDaemon.Openwrt
