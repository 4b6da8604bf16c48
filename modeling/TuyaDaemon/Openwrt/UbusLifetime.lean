import TuyaDaemon.Openwrt.ActionDispatch
import TuyaDaemon.Openwrt.Main

/-!
# The life of the ubus handle

`on_disconnect` releases the handle, and a connection may be lost long before the
daemon stops. Seen from the events of a run the handle is live, released, released
with a periodic send under way, or already misused (`HandleStatus`); every step of the daemon
moves between these four.
-/

namespace TuyaDaemon.Openwrt

set_option autoImplicit false

open Daemon EventMachine

def uses (h : UbusContext) : Event Effect → Bool
  | .own (.ubus (.lookupId ctx _)) => ctx = some h
  | .own (.ubus (.invoke ctx _ _ _ _)) => ctx = some h
  | _ => false

/-- Once the handle has been passed to `ubus_free` no sender uses it and it is not freed again. -/
def Safe (h : UbusContext) (es : List (Event Effect)) : Prop :=
  es.Pairwise fun e e' => e = .own (.ubusFree (some h)) →
    uses h e' = false ∧ e' ≠ .own (.ubusFree (some h))

/-- Once a connection was lost or closed none is established again, and `tuya_mqtt_loop`
reports no success to the main loop. -/
def Quiet (es : List (Event Effect)) : Prop :=
  es.Pairwise fun e e' => e = .own .onDisconnect →
    e' ≠ .own .onConnected ∧ e' ≠ .returned (.loop .main) oprtOk

instance (h : UbusContext) (es : List (Event Effect)) : Decidable (Safe h es) :=
  inferInstanceAs (Decidable (es.Pairwise _))

instance (es : List (Event Effect)) : Decidable (Quiet es) :=
  inferInstanceAs (Decidable (es.Pairwise _))

def concerns : Event Effect → Bool
  | .own .onConnected => true
  | .own .onDisconnect => true
  | .own (.ubus _) => true
  | .own (.ubusFree _) => true
  | .own (.ubusConnect (some _)) => true
  | .returned (.loop .main) ret => ret = oprtOk
  | _ => false

section
variable {h : UbusContext} {xs ys : List (Event Effect)}

theorem Safe.of_append (hs : Safe h (xs ++ ys)) : Safe h xs := (List.pairwise_append.mp hs).1

theorem Quiet.of_append (hq : Quiet (xs ++ ys)) : Quiet xs := (List.pairwise_append.mp hq).1

theorem safe_of_not_freed (hf : .own (.ubusFree (some h)) ∉ xs) : Safe h xs := by
  apply List.pairwise_of_forall_mem_list
  intro e he e' _ hfree
  exact absurd (hfree ▸ he) hf

theorem quiet_of_not_lost (hd : .own .onDisconnect ∉ xs) : Quiet xs := by
  apply List.pairwise_of_forall_mem_list
  intro e he e' _ hlost
  exact absurd (hlost ▸ he) hd

theorem not_safe_of_use (hf : .own (.ubusFree (some h)) ∈ xs) {e : Event Effect} (he : e ∈ ys)
    (hu : uses h e = true) : ¬ Safe h (xs ++ ys) := by
  intro hs
  have := ((List.pairwise_append.mp hs).2.2 _ hf e he rfl).1
  rw [hu] at this
  cases this

theorem not_quiet_of_connected (hd : .own .onDisconnect ∈ xs) (hc : .own .onConnected ∈ ys) :
    ¬ Quiet (xs ++ ys) := fun hq => ((List.pairwise_append.mp hq).2.2 _ hd _ hc rfl).1 rfl

theorem not_quiet_of_returned (hd : .own .onDisconnect ∈ xs)
    (hc : .returned (.loop .main) oprtOk ∈ ys) : ¬ Quiet (xs ++ ys) :=
  fun hq => ((List.pairwise_append.mp hq).2.2 _ hd _ hc rfl).2 rfl

theorem not_mem_of_neutral (hn : ∀ e ∈ ys, concerns e = false) {e : Event Effect}
    (he : concerns e = true) : e ∉ ys := by
  intro hmem
  rw [hn e hmem] at he
  cases he

theorem concerns_of_uses {e : Event Effect} (hu : uses h e = true) : concerns e = true := by
  cases e with
  | own f => cases f <;> first | rfl | cases hu
  | _ => cases hu

theorem Safe.append_neutral (hs : Safe h xs) (hn : ∀ e ∈ ys, concerns e = false) :
    Safe h (xs ++ ys) := by
  apply List.pairwise_append.mpr
  refine ⟨hs, safe_of_not_freed (not_mem_of_neutral hn rfl), ?_⟩
  intro e _ e' he' _
  constructor
  · apply Bool.eq_false_iff.mpr
    intro hu
    exact not_mem_of_neutral hn (concerns_of_uses hu) he'
  · rintro rfl
    exact not_mem_of_neutral hn rfl he'

theorem Quiet.append_neutral (hq : Quiet xs) (hn : ∀ e ∈ ys, concerns e = false) :
    Quiet (xs ++ ys) := by
  apply List.pairwise_append.mpr
  refine ⟨hq, quiet_of_not_lost (not_mem_of_neutral hn rfl), ?_⟩
  intro e _ e' he' _
  constructor
  · rintro rfl
    exact not_mem_of_neutral hn rfl he'
  · rintro rfl
    exact not_mem_of_neutral hn rfl he'

end

/-- Where the handle stands after the events `es`; `sending` says that the main loop is between
`tuya_mqtt_loop` and the periodic send. -/
inductive HandleStatus (h : UbusContext) (sending linked : Bool)
    (es : List (Event Effect)) : Prop where
  | live (hd : .own .onDisconnect ∉ es) (hf : .own (.ubusFree (some h)) ∉ es)
  | released (hd : .own .onDisconnect ∈ es) (hf : .own (.ubusFree (some h)) ∈ es)
      (hq : Quiet es) (hs : Safe h es) (hl : linked = false) (hn : sending = false)
  | pending (hf : .own (.ubusFree (some h)) ∈ es) (hq : ¬ Quiet es) (hn : sending = true)
  | misused (hq : ¬ Quiet es) (hs : ¬ Safe h es)

namespace HandleStatus
variable {h : UbusContext} {sending linked : Bool} {es fs : List (Event Effect)}

theorem safe_of_quiet (st : HandleStatus h sending linked es) (hq : Quiet es) : Safe h es := by
  cases st with
  | live _ hf => exact safe_of_not_freed hf
  | released _ _ _ hs => exact hs
  | pending _ hq' => exact absurd hq hq'
  | misused hq' => exact absurd hq hq'

theorem quiet_of_safe (st : HandleStatus h sending linked es) (hn : sending = false)
    (hs : Safe h es) : Quiet es := by
  cases st with
  | live hd => exact quiet_of_not_lost hd
  | released _ _ hq => exact hq
  | pending _ _ hn' =>
    rw [hn] at hn'
    cases hn'
  | misused _ hs' => exact absurd hs hs'

theorem misuse (hq : ¬ Quiet es) (hs : ¬ Safe h es) :
    HandleStatus h sending linked (es ++ fs) :=
  .misused (fun hq' => hq hq'.of_append) (fun hs' => hs hs'.of_append)

/-- Events that neither lose the connection nor free the handle leave a live handle live. -/
theorem live_append (hd : .own .onDisconnect ∉ es) (hf : .own (.ubusFree (some h)) ∉ es)
    (hd' : .own .onDisconnect ∉ fs) (hf' : .own (.ubusFree (some h)) ∉ fs) :
    HandleStatus h sending linked (es ++ fs) :=
  .live (List.not_mem_append hd hd') (List.not_mem_append hf hf')

theorem neutral (st : HandleStatus h sending linked es) (hn : ∀ e ∈ fs, concerns e = false) :
    HandleStatus h sending linked (es ++ fs) := by
  cases st with
  | live hd hf => exact live_append hd hf (not_mem_of_neutral hn rfl) (not_mem_of_neutral hn rfl)
  | released hd hf hq hs hl hns =>
    exact .released (List.mem_append_left _ hd) (List.mem_append_left _ hf)
      (hq.append_neutral hn) (hs.append_neutral hn) hl hns
  | pending hf hq hns =>
    exact .pending (List.mem_append_left _ hf) (fun hq' => hq hq'.of_append) hns
  | misused hq hs => exact misuse hq hs

end HandleStatus

theorem own_not_mem {g : Effect} {gs : List Effect} (hg : g ∉ gs) :
    Event.own g ∉ gs.map Event.own := by
  intro hmem
  obtain ⟨g', hg', heq⟩ := List.mem_map.mp hmem
  exact hg (Event.own.inj heq ▸ hg')

theorem not_mem_map_ubus {g : Effect} (us : List UbusEvent) (hg : ∀ u, .ubus u ≠ g) :
    g ∉ us.map Effect.ubus := by
  intro hmem
  obtain ⟨u, _, heq⟩ := List.mem_map.mp hmem
  exact hg u heq

section Handlers
variable {Attr Data : Type} (lib : Blobmsg Attr Data) {h : UbusContext}
  {es : List (Event Effect)} (env : UbusEnv Attr) (next : Nat)

def memoryEvents (h : UbusContext) : List (Event Effect) :=
  ((sendMemoryInfo lib env (some h) next).2.events.map Effect.ubus).map .own

theorem use_of_memoryEvents (h : UbusContext) :
    ∃ e ∈ memoryEvents lib env next h, uses h e = true := by
  have hlookup := Sender.lookupId_mem_run lib env (some h) .sendMemoryInfo next
  refine ⟨_, List.mem_map_of_mem (List.mem_map_of_mem hlookup), ?_⟩
  simp [uses]

theorem not_mem_memoryEvents {g : Effect} (hg : ∀ u, .ubus u ≠ g) :
    .own g ∉ memoryEvents lib env next h := own_not_mem (not_mem_map_ubus _ hg)

/-- A connection that comes back makes `on_connected` use the freed handle. -/
theorem HandleStatus.connected (st : HandleStatus h false false es) :
    HandleStatus h false true (es ++ .own .onConnected :: memoryEvents lib env next h) := by
  cases st with
  | live hd hf =>
    apply live_append hd hf
    · exact List.not_mem_cons_of_ne_of_not_mem nofun (not_mem_memoryEvents lib env next nofun)
    · exact List.not_mem_cons_of_ne_of_not_mem nofun (not_mem_memoryEvents lib env next nofun)
  | released hd hf =>
    obtain ⟨e, he, hu⟩ := use_of_memoryEvents lib env next h
    apply HandleStatus.misused
    · exact not_quiet_of_connected hd List.mem_cons_self
    · exact not_safe_of_use hf (List.mem_cons_of_mem _ he) hu
  | pending _ _ hn => cases hn
  | misused hq hs => exact misuse hq hs

/-- Messages only arrive while there is a connection, so a freed handle does not meet one. -/
theorem HandleStatus.message {gs : List Effect} (st : HandleStatus h false true es)
    (hgs : ∀ g ∈ gs, g.ofMessage = true) :
    HandleStatus h false true (es ++ .own .onMessages :: gs.map .own) := by
  have hout (g : Effect) (hg : g.ofMessage = false) : .own g ∉ gs.map Event.own := by
    apply own_not_mem
    intro hmem
    rw [hgs g hmem] at hg
    cases hg
  cases st with
  | live hd hf =>
    apply live_append hd hf
    · exact List.not_mem_cons_of_ne_of_not_mem nofun (hout _ rfl)
    · exact List.not_mem_cons_of_ne_of_not_mem nofun (hout _ rfl)
  | released _ _ _ _ hl _ => cases hl
  | pending _ _ hn => cases hn
  | misused hq hs => exact misuse hq hs

theorem HandleStatus.disconnected (st : HandleStatus h false true es) :
    HandleStatus h false false (es ++ [.own .onDisconnect, .own (.ubusFree (some h))]) := by
  cases st with
  | live hd hf =>
    refine .released (by simp) (by simp) ?_ ?_ rfl rfl
    · apply List.pairwise_append.mpr
      refine ⟨quiet_of_not_lost hd, by simp, ?_⟩
      rintro e he _ _ rfl
      exact absurd he hd
    · apply List.pairwise_append.mpr
      refine ⟨safe_of_not_freed hf, by simp, ?_⟩
      rintro e he _ _ rfl
      exact absurd he hf
  | released _ _ _ _ hl _ => cases hl
  | pending _ _ hn => cases hn
  | misused hq hs => exact misuse hq hs

/-- `tuya_mqtt_loop` returns to the main loop, which then sleeps and sends. -/
theorem HandleStatus.returned {linked : Bool} (st : HandleStatus h false linked es) :
    HandleStatus h true linked (es ++ [.returned (.loop .main) oprtOk]) := by
  cases st with
  | live hd hf => exact live_append hd hf (by simp) (by simp)
  | released hd hf =>
    apply HandleStatus.pending
    · exact List.mem_append_left _ hf
    · exact not_quiet_of_returned hd List.mem_cons_self
    · rfl
  | pending _ _ hn => cases hn
  | misused hq hs => exact misuse hq hs

theorem HandleStatus.sent {linked : Bool} (st : HandleStatus h true linked es) :
    HandleStatus h false linked (es ++ .periodicSend :: memoryEvents lib env next h) := by
  cases st with
  | live hd hf =>
    apply live_append hd hf
    · exact List.not_mem_cons_of_ne_of_not_mem nofun (not_mem_memoryEvents lib env next nofun)
    · exact List.not_mem_cons_of_ne_of_not_mem nofun (not_mem_memoryEvents lib env next nofun)
  | released _ _ _ _ _ hn => cases hn
  | pending hf hq _ =>
    obtain ⟨e, he, hu⟩ := use_of_memoryEvents lib env next h
    apply HandleStatus.misused
    · exact fun hq' => hq hq'.of_append
    · exact not_safe_of_use hf (List.mem_cons_of_mem _ he) hu
  | misused hq hs => exact misuse hq hs

end Handlers

section Callbacks
variable {Attr Data : Type} {lib : Blobmsg Attr Data} {h : UbusContext}
  {m m' : Memory} {es : List (Event Effect)}

/-- The context and `main` hold the same handle. -/
def Holds (h : UbusContext) (m : Memory) : Prop := m.userData = some h ∧ m.ubusCtx = some h

/-- One callback that runs while the main loop is not about to send. -/
theorem HandleStatus.callback {cb : Callback (UbusEnv Attr) (ActionEnv Attr)} {fs : List Effect}
    (hm : Holds h m) (st : HandleStatus h false m.linked es)
    (hstep : callback lib m cb = some (m', fs)) :
    Holds h m' ∧ HandleStatus h false m'.linked (es ++ fs.map .own) := by
  obtain ⟨huser, hctx⟩ := hm
  rcases callback_cases hstep with ⟨env, hl, rfl, rfl⟩ | ⟨msg, env, next, gs, hl, hgs, rfl, rfl⟩ |
    ⟨hl, rfl, rfl⟩
  · rw [hl] at st
    rw [huser]
    exact ⟨⟨rfl, hctx⟩, st.connected lib env m.next⟩
  · rw [hl] at st
    exact ⟨⟨huser, hctx⟩, st.message (onMessages_effects lib m.userData env m.next hgs)⟩
  · rw [hl] at st
    rw [huser]
    exact ⟨⟨rfl, hctx⟩, st.disconnected⟩

theorem HandleStatus.callbacks {cbs : List (Callback (UbusEnv Attr) (ActionEnv Attr))}
    {fs : List Effect} (hm : Holds h m) (st : HandleStatus h false m.linked es)
    (run : Run (Openwrt.callback lib) m cbs fs m') :
    Holds h m' ∧ HandleStatus h false m'.linked (es ++ fs.map .own) := by
  have hrun := run.history (P := fun m gs => Holds h m ∧
    HandleStatus h false m.linked (es ++ gs.map .own)) ?_ (h := []) ⟨hm, by simpa using st⟩
  · simpa using hrun
  · intro s i t gs ks hs hstep
    obtain ⟨hm', st'⟩ := HandleStatus.callback hs.1 hs.2 hstep
    exact ⟨hm', by simpa using st'⟩

theorem ubusConnect_not_mem_callbacks {cbs : List (Callback (UbusEnv Attr) (ActionEnv Attr))}
    {fs : List Effect} (run : Run (Openwrt.callback lib) m cbs fs m')
    (ctx : Option UbusContext) : .ubusConnect ctx ∉ fs := by
  intro hmem
  cases (callbacks_effects lib run).2 _ hmem

end Callbacks

def early : Pc → Bool
  | .uciAlloc => true
  | .options => true
  | .mqttInit _ => true
  | .ubusConnect => true
  | _ => false

def ending : Pc → Bool
  | .cleanupMqtt _ => true
  | .mqttDeinit _ => true
  | .cleanupEnd _ => true
  | .exited _ => true
  | _ => false

/-- Between the return of `tuya_mqtt_loop` to the main loop and the periodic send. -/
def sending : Pc → Bool
  | .mainSleep _ => true
  | .mainSend _ => true
  | _ => false

theorem instr_test {pc enter leave : Pc} {l : LoopName} {condition : Bool}
    (hi : instr pc = .test l condition enter leave) :
    early pc = false ∧ ending pc = false ∧ (early enter = false ∧ sending enter = sending pc) ∧
      early leave = false ∧ sending leave = sending pc := by
  cases pc with
  | retryHead i sleepSeconds ret =>
    simp only [instr, Instr.test.injEq] at hi
    obtain ⟨_, _, rfl, rfl⟩ := hi
    split <;> exact ⟨rfl, rfl, ⟨rfl, rfl⟩, rfl, rfl⟩
  | setupHead =>
    obtain ⟨_, _, rfl, rfl⟩ := Instr.test.inj hi
    exact ⟨rfl, rfl, ⟨rfl, rfl⟩, rfl, rfl⟩
  | mainHead c =>
    obtain ⟨_, _, rfl, rfl⟩ := Instr.test.inj hi
    exact ⟨rfl, rfl, ⟨rfl, rfl⟩, rfl, rfl⟩
  | _ => cases hi

theorem instr_sleep {pc next : Pc} {seconds : UInt32} (hi : instr pc = .sleep seconds next) :
    early pc = false ∧ ending pc = false ∧ early next = false ∧ sending next = sending pc := by
  cases pc with
  | retrySleep i s =>
    obtain ⟨_, rfl⟩ := Instr.sleep.inj hi
    exact ⟨rfl, rfl, rfl, rfl⟩
  | mainSleep c =>
    obtain ⟨_, rfl⟩ := Instr.sleep.inj hi
    exact ⟨rfl, rfl, rfl, rfl⟩
  | _ => cases hi

theorem instr_send {pc : Pc} {next : Bool → Pc} (hi : instr pc = .send next) :
    early pc = false ∧ ending pc = false ∧ sending pc = true ∧
      ∀ ok, early (next ok) = false ∧ sending (next ok) = false := by
  cases pc with
  | mainSend c =>
    obtain rfl := Instr.send.inj hi
    refine ⟨rfl, rfl, rfl, fun ok => ?_⟩
    cases ok with
    | true => exact ⟨rfl, rfl⟩
    | false =>
      simp only [Bool.not_false, if_true]
      split <;> exact ⟨rfl, rfl⟩
  | _ => cases hi

theorem instr_sdk {pc : Pc} {c : SdkCall} {next : Int → Pc} (hi : instr pc = .sdk c next) :
    early pc = false ∧ sending pc = false ∧
      ∀ ret, early (next ret) = false ∧ (ending pc = true → ending (next ret) = true) ∧
        sending (next ret) = decide (c = .loop .main ∧ ret = oprtOk) := by
  cases pc with
  | connect =>
    obtain ⟨rfl, rfl⟩ := Instr.sdk.inj hi
    exact ⟨rfl, rfl, fun ret => ⟨rfl, nofun, by simp [sending]⟩⟩
  | retryConnect i s =>
    obtain ⟨rfl, rfl⟩ := Instr.sdk.inj hi
    exact ⟨rfl, rfl, fun ret => ⟨rfl, nofun, by simp [sending]⟩⟩
  | setupLoop =>
    obtain ⟨rfl, rfl⟩ := Instr.sdk.inj hi
    refine ⟨rfl, rfl, fun ret => ?_⟩
    by_cases hret : ret = oprtOk <;> simp [hret, early, ending, sending]
  | mainLoop c =>
    obtain ⟨rfl, rfl⟩ := Instr.sdk.inj hi
    refine ⟨rfl, rfl, fun ret => ?_⟩
    by_cases hret : ret = oprtOk <;> simp [hret, early, ending, sending]
  | cleanupMqtt retVal =>
    obtain ⟨rfl, rfl⟩ := Instr.sdk.inj hi
    exact ⟨rfl, rfl, fun ret => ⟨rfl, fun _ => rfl, by simp [sending]⟩⟩
  | _ => cases hi

theorem instr_deinit {pc next : Pc} (hi : instr pc = .deinit next) :
    ∃ retVal, pc = .mqttDeinit retVal ∧ next = .cleanupEnd retVal := by
  cases pc with
  | mqttDeinit retVal => exact ⟨retVal, rfl, (Instr.deinit.inj hi).symm⟩
  | _ => cases hi

theorem not_ending_of_early {pc : Pc} (h : early pc = true) : ending pc = false := by
  cases pc <;> first
    | rfl
    | cases h

section Ask
variable {pc pc' : Pc} {next : Ask → Memory → Outcome} {a : Ask} {m m' : Memory}
  {gs : List Effect}

/-- The calls up to `ubus_connect`: on they go, or they fail, or the handle is there. -/
theorem early_ask (hpc : early pc = true) (hi : instr pc = .ask next)
    (hask : next a m = some (pc', m', gs)) :
    (early pc' = true ∧ ∀ e ∈ gs.map Event.own, concerns e = false) ∨
      (ending pc' = true ∧ ∀ h, .ubusConnect (some h) ∉ gs) ∨
      ∃ h, early pc' = false ∧ sending pc' = false ∧ Holds h m' ∧
        gs = [.ubusConnect (some h)] := by
  cases pc with
  | uciAlloc =>
    obtain rfl := Instr.ask.inj hi
    rcases allocUci_cases hask with ⟨rfl, _, rfl⟩ | ⟨_, rfl, _, rfl⟩
    · exact Or.inr (Or.inl ⟨rfl, by simp⟩)
    · exact Or.inl ⟨rfl, by simp [concerns]⟩
  | options =>
    obtain rfl := Instr.ask.inj hi
    obtain ⟨rfl | ⟨_, rfl⟩, _, rfl⟩ := loadOptions_cases hask
    · exact Or.inr (Or.inl ⟨rfl, by simp⟩)
    · exact Or.inl ⟨rfl, by simp⟩
  | mqttInit o =>
    obtain rfl := Instr.ask.inj hi
    obtain ⟨_, _, _, rfl, ⟨rfl, _⟩ | ⟨rfl, _⟩⟩ := initMqtt_cases hask
    · exact Or.inr (Or.inl ⟨rfl, by simp⟩)
    · exact Or.inl ⟨rfl, by simp [concerns]⟩
  | ubusConnect =>
    obtain rfl := Instr.ask.inj hi
    rcases connectUbus_cases hask with ⟨rfl, _, rfl⟩ | ⟨h, rfl, rfl, rfl⟩
    · exact Or.inr (Or.inl ⟨rfl, by simp⟩)
    · exact Or.inr (Or.inr ⟨h, rfl, rfl, ⟨rfl, rfl⟩, rfl⟩)
  | _ => cases hpc

theorem late_ask (hpc : early pc = false) (hi : instr pc = .ask next)
    (hask : next a m = some (pc', m', gs)) :
    early pc' = false ∧ sending pc' = sending pc ∧ (ending pc = true → ending pc' = true) ∧
      m' = m ∧ ∀ e ∈ gs.map Event.own, concerns e = false := by
  cases pc with
  | setupConnected =>
    obtain rfl := Instr.ask.inj hi
    obtain ⟨rfl, ⟨rfl, rfl⟩ | ⟨rfl, rfl⟩⟩ := askConnected_cases hask
    · simp [early, sending, ending, concerns]
    · simp [early, sending, ending, concerns]
  | cleanupEnd retVal =>
    obtain rfl := Instr.ask.inj hi
    obtain ⟨rfl, rfl, rfl⟩ := cleanUp_cases hask
    simp [early, sending, ending, concerns, optionsConst]
  | uciAlloc => cases hpc
  | options => cases hpc
  | mqttInit o => cases hpc
  | ubusConnect => cases hpc
  | _ => cases hi

end Ask

/-- How far a run has come, as far as the handle is concerned. -/
inductive Progress (s : State Pc Memory) (es : List (Event Effect)) : Prop where
  | before (hpc : early s.pc = true) (hn : ∀ e ∈ es, concerns e = false)
  | failed (hpc : ending s.pc = true) (hn : ∀ h, .own (.ubusConnect (some h)) ∉ es)
  | holding (h : UbusContext) (hm : Holds h s.mem) (hpc : early s.pc = false)
      (hone : ∀ h', .own (.ubusConnect (some h')) ∈ es → h' = h)
      (st : HandleStatus h (sending s.pc) s.mem.linked es)

namespace Progress
variable {s t : State Pc Memory} {es fs : List (Event Effect)}

/-- A step that does nothing the handle depends on and leaves the memory alone. -/
theorem quiet_step (hp : Progress s es) (hpc : early s.pc = false) {pc : Pc}
    (he : early pc = false) (hs : sending pc = sending s.pc)
    (hend : ending s.pc = true → ending pc = true) (hn : ∀ e ∈ fs, concerns e = false) :
    Progress { s with pc } (es ++ fs) := by
  cases hp with
  | before hpc' => rw [hpc] at hpc'; cases hpc'
  | failed hpc' hn' =>
    apply Progress.failed (hend hpc')
    intro h
    exact List.not_mem_append (hn' h) (not_mem_of_neutral hn rfl)
  | holding h hm _ hone st =>
    refine .holding h hm he ?_ ?_
    · intro h' hmem
      exact hone h' ((List.mem_append.mp hmem).resolve_right (not_mem_of_neutral hn rfl))
    · rw [hs]
      exact st.neutral hn

theorem sdk_step {Attr Data : Type} {lib : Blobmsg Attr Data} (hp : Progress s es)
    {c : SdkCall} {next : Int → Pc} (hi : instr s.pc = .sdk c next) {mem : Memory}
    {cbs : List (Callback (UbusEnv Attr) (ActionEnv Attr))} {gs : List Effect}
    (run : Run (callback lib) s.mem cbs gs mem) (ret : Int) :
    Progress { s with pc := next ret, mem }
      (es ++ (.call c :: gs.map .own ++ [.returned c ret])) := by
  obtain ⟨hpc, hsend, hnext⟩ := instr_sdk hi
  obtain ⟨he, hend, hsend'⟩ := hnext ret
  have hgs : ∀ h, .own (.ubusConnect (some h)) ∉
      (.call c :: gs.map Event.own ++ [.returned c ret]) := by
    intro h hmem
    simp only [List.cons_append, List.mem_cons, List.mem_append, List.mem_map, reduceCtorEq,
      false_or, List.not_mem_nil, or_false] at hmem
    obtain ⟨g, hg, heq⟩ := hmem
    exact ubusConnect_not_mem_callbacks run _ (Event.own.inj heq ▸ hg)
  cases hp with
  | before hpc' => rw [hpc] at hpc'; cases hpc'
  | failed hpc' hn' =>
    apply Progress.failed (hend hpc')
    intro h
    exact List.not_mem_append (hn' h) (hgs h)
  | holding h hm _ hone st =>
    rw [hsend] at st
    have hcall : HandleStatus h false s.mem.linked (es ++ [.call c]) :=
      st.neutral (by simp [concerns])
    obtain ⟨hm', st'⟩ := HandleStatus.callbacks hm hcall run
    refine .holding h hm' he ?_ ?_
    · intro h' hmem
      exact hone h' ((List.mem_append.mp hmem).resolve_right (hgs h'))
    · have heq : es ++ (.call c :: gs.map Event.own ++ [.returned c ret]) =
          es ++ [.call c] ++ gs.map Event.own ++ [.returned c ret] := by simp
      rw [heq, hsend']
      by_cases hmain : c = .loop .main ∧ ret = oprtOk
      · obtain ⟨rfl, rfl⟩ := hmain
        exact st'.returned
      · rw [decide_eq_false hmain]
        refine st'.neutral fun e hmem => ?_
        obtain rfl := List.mem_singleton.mp hmem
        cases c with
        | loop l => cases l <;> simp_all [concerns]
        | _ => rfl

theorem send_step {Attr Data : Type} {lib : Blobmsg Attr Data} (hp : Progress s es)
    {next : Bool → Pc} (hi : instr s.pc = .send next) {env : UbusEnv Attr} {ok : Bool}
    {mem : Memory} {gs : List Effect} (hsend : periodicSend lib env s.mem = some (ok, mem, gs)) :
    Progress { s with pc := next ok, mem }
      (es ++ (.periodicSend :: gs.map .own ++ [.sent ok])) := by
  obtain ⟨hpc, hend, hsending, hnext⟩ := instr_send hi
  obtain ⟨he, hs⟩ := hnext ok
  obtain ⟨-, rfl, rfl⟩ := by simpa [periodicSend] using hsend
  cases hp with
  | before hpc' => rw [hpc] at hpc'; cases hpc'
  | failed hpc' _ => rw [hend] at hpc'; cases hpc'
  | holding h hm _ hone st =>
    refine .holding h hm he ?_ ?_
    · intro h' hmem
      refine hone h' ((List.mem_append.mp hmem).resolve_right ?_)
      simp
    · rw [hsending] at st
      rw [hm.2, hs, ← List.append_assoc]
      exact (st.sent lib env s.mem.next).neutral (List.forall_mem_singleton.mpr rfl)

theorem ask_step (hp : Progress s es) {next : Ask → Memory → Outcome} (hi : instr s.pc = .ask next)
    {a : Ask} {pc : Pc} {mem : Memory} {gs : List Effect}
    (hask : next a s.mem = some (pc, mem, gs)) :
    Progress { s with pc, mem } (es ++ gs.map .own) := by
  cases hpc : early s.pc with
  | true =>
    cases hp with
    | failed h' _ => rw [not_ending_of_early hpc] at h'; cases h'
    | holding _ _ h' _ _ => rw [hpc] at h'; cases h'
    | before _ hn =>
      rcases early_ask hpc hi hask with ⟨he, hgs⟩ | ⟨he, hgs⟩ | ⟨h, he, hs, hm, rfl⟩
      · exact .before he (List.forall_mem_append.mpr ⟨hn, hgs⟩)
      · apply Progress.failed he
        intro h
        exact List.not_mem_append (not_mem_of_neutral hn rfl) (own_not_mem (hgs h))
      · refine .holding h hm he ?_ ?_
        · intro h' hmem
          rcases List.mem_append.mp hmem with hmem | hmem
          · exact absurd hmem (not_mem_of_neutral hn rfl)
          · simpa using hmem
        · apply HandleStatus.live
          · exact List.not_mem_append (not_mem_of_neutral hn rfl) (by simp)
          · exact List.not_mem_append (not_mem_of_neutral hn rfl) (by simp)
  | false =>
    obtain ⟨he, hs, hend, rfl, hgs⟩ := late_ask hpc hi hask
    exact hp.quiet_step hpc he hs hend hgs

theorem step {Attr Data : Type} {lib : Blobmsg Attr Data}
    {i : Input (UbusEnv Attr) (ActionEnv Attr) (UbusEnv Attr) Ask} (hp : Progress s es)
    (h : Daemon.step (program lib) s i = some (t, fs)) : Progress t (es ++ fs) := by
  cases transition_of_step h with
  | signal =>
    rw [List.append_nil]
    cases hp with
    | before hpc hn => exact .before hpc hn
    | failed hpc hn => exact .failed hpc hn
    | holding h hm hpc hone st => exact .holding h hm hpc hone st
  | enter hi _ _ =>
    obtain ⟨hpc, hend, ⟨he, hs⟩, _⟩ := instr_test hi
    exact hp.quiet_step hpc he hs (by simp [hend]) (by simp [concerns])
  | leave hi _ =>
    obtain ⟨hpc, hend, _, he, hs⟩ := instr_test hi
    exact hp.quiet_step hpc he hs (by simp [hend]) nofun
  | sleep hi =>
    obtain ⟨hpc, hend, he, hs⟩ := instr_sleep hi
    exact hp.quiet_step hpc he hs (by simp [hend]) (by simp [concerns])
  | sdk hi run => exact hp.sdk_step hi run _
  | send hi hsend => exact hp.send_step hi hsend
  | ask hi hask => exact hp.ask_step hi hask
  | deinit hi =>
    obtain ⟨retVal, hpc, rfl⟩ := instr_deinit hi
    have hs : sending (.cleanupEnd retVal) = sending s.pc := by rw [hpc]; rfl
    exact hp.quiet_step (by rw [hpc]; rfl) rfl hs (fun _ => rfl) (by simp [concerns])

end Progress

section Runs
variable {Attr Data : Type} (lib : Blobmsg Attr Data)
  {is : List (Input (UbusEnv Attr) (ActionEnv Attr) (UbusEnv Attr) Ask)}
  {es : List (Event Effect)} {t : State Pc Memory}

theorem progress_of_run (run : Run (Daemon.step (program lib)) start is es t) :
    Progress t es :=
  run.history (h := []) Progress.step (.before rfl nofun)

/-- The handle is freed once and not used after that in every run in which no connection
comes back, and no `tuya_mqtt_loop` of the main loop succeeds, after one was lost; and a
run that ends without such a misuse is one of these. -/
theorem handle_safe_iff_quiet (run : Run (Daemon.step (program lib)) start is es t)
    {h : UbusContext} (hconn : .own (.ubusConnect (some h)) ∈ es) :
    (Quiet es → Safe h es) ∧ (∀ retVal, t.pc = .exited retVal → Safe h es → Quiet es) := by
  cases progress_of_run lib run with
  | before _ hn => exact absurd hconn (not_mem_of_neutral hn rfl)
  | failed _ hn => exact absurd hconn (hn h)
  | holding h' hm hpc hone st =>
    obtain rfl := hone h hconn
    refine ⟨st.safe_of_quiet, ?_⟩
    intro retVal hexit
    exact st.quiet_of_safe (by rw [hexit]; rfl)

end Runs

abbrev BlobInput :=
  Input (UbusEnv Blob) (ActionEnv Blob) (UbusEnv Blob) Ask

def absentService : UbusEnv Blob :=
  { Blob.answering 0 [] ⟨false, 0, []⟩ with lookupId := fun _ => (4, 0) }

def completeLookup : UciLookup := fun _ _ => (0, ⟨true, some ⟨.string, cstr "7"⟩⟩)

/-- Everything up to the first head of the main loop, with a connection that comes up. -/
def bootInputs : List BlobInput :=
  [.answer (.uciAllocContext (some ⟨1⟩)),
    .answer (.options (fun _ => completeLookup) ⟨false, none⟩), .answer (.mqttInit oprtOk),
    .answer (.ubusConnect (some ⟨5⟩)), .returned [] oprtOk, .tick,
    .answer (.mqttConnected false), .tick, .returned [.onConnected absentService] oprtOk,
    .answer (.mqttConnected true)]

/-- A stop signal arrives and the connection is closed on the way out. -/
def stopInputs : List BlobInput :=
  bootInputs ++ [.signal, .tick, .returned [.onDisconnect] oprtOk, .tick, .answer .cleanup]

/-- The connection is lost during a call of `tuya_mqtt_loop` that reports success. -/
def lossInputs : List BlobInput :=
  bootInputs ++ [.tick, .returned [.onDisconnect] oprtOk, .tick, .sent absentService]

theorem handle_safe_iff_quiet_stopped :
    ∃ es t, Run (Daemon.step (program Blob.blobmsg)) start stopInputs es t ∧ Safe ⟨5⟩ es := by
  have hrun := @run_of_exec _ _ _ (Daemon.step (program Blob.blobmsg)) start _ stopInputs _ rfl
  exact ⟨_, _, hrun, (handle_safe_iff_quiet Blob.blobmsg hrun (by decide)).1 (by decide)⟩

/-- A lost connection is enough: the next periodic send uses the freed handle. -/
theorem not_safe_after_loss :
    ¬ ∀ (is : List BlobInput) (es : List (Event Effect)) (t : State Pc Memory)
      (h : UbusContext), Run (Daemon.step (program Blob.blobmsg)) start is es t →
      .own (.ubusConnect (some h)) ∈ es → Safe h es := by
  intro hall
  have hsafe := hall lossInputs _ _ ⟨5⟩ (run_of_exec rfl) (by decide)
  revert hsafe
  decide

end TuyaDaemon.Openwrt
