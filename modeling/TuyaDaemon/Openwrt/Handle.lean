import TuyaDaemon.Openwrt.Cleanup
import TuyaDaemon.Openwrt.Gateway

/-!
# One ubus handle

The handle reaches the senders from two places, the context of the SDK and a local of
`main`. Where `init_connections` has succeeded both hold what `ubus_connect` returned, so that
every operation on the bus is given that handle, and never NULL.
-/

namespace TuyaDaemon.Openwrt

set_option autoImplicit false

open Daemon EventMachine

/-- The handle that an operation is given. -/
def UbusEvent.handle? : UbusEvent → Option (Option UbusContext)
  | lookupId ctx _ => some ctx
  | invoke ctx _ _ _ _ => some ctx
  | _ => none

def Effect.handle? : Effect → Option (Option UbusContext)
  | ubus e => e.handle?
  | ubusFree ctx => some ctx
  | _ => none

def handle? : Event Effect → Option (Option UbusContext)
  | .own e => e.handle?
  | _ => none

/-- All operations are given the handle `ctx`. -/
def Through (ctx : Option UbusContext) (es : List Effect) : Prop :=
  ∀ c ∈ es.filterMap Effect.handle?, c = ctx

/-! ## The handlers -/

section
variable {Attr Data : Type} {lib : Blobmsg Attr Data} {ctx : Option UbusContext}

theorem Through.append {es fs : List Effect} (h : Through ctx es) (h' : Through ctx fs) :
    Through ctx (es ++ fs) := by
  rw [Through, List.filterMap_append, List.forall_mem_append]
  exact ⟨h, h'⟩

theorem through_of_none {es : List Effect} (h : ∀ e ∈ es, e.handle? = none) :
    Through ctx es := by
  rw [Through, List.filterMap_eq_nil_iff.mpr h]
  nofun

theorem through_single {e : Effect} (h : e.handle? = none) : Through ctx [e] :=
  through_of_none (List.forall_mem_singleton.mpr h)

theorem handles_prologue (env : UbusEnv Attr) (s : Sender) (next : Nat) :
    (s.prologue lib env ctx next).filterMap UbusEvent.handle? = [ctx, ctx] := by
  have hformat : ∀ ps : List HeapString,
      (ps.map UbusEvent.formatJson).filterMap UbusEvent.handle? = [] := by
    intro ps
    simp [List.filterMap_map, Function.comp_def, UbusEvent.handle?]
  simp only [Sender.prologue, List.filterMap_append, hformat]
  cases s <;> rfl

/-- A sender uses no handle but the one it is given. -/
theorem through_run (env : UbusEnv Attr) (s : Sender) (next : Nat) :
    Through ctx ((s.run lib env ctx next).2.events.map .ubus) := by
  have hubus : Effect.handle? ∘ Effect.ubus = UbusEvent.handle? := rfl
  rw [Through, List.filterMap_map, hubus]
  by_cases hf : s.Found env
  · by_cases hb : s.Built env
    · have hepilogue :
          (Sender.epilogue (s.sent lib env next)).filterMap UbusEvent.handle? = [] := by
        cases s.sent lib env next <;> rfl
      rw [Sender.run_of_built lib env ctx s next hf hb, List.filterMap_append,
        handles_prologue, hepilogue]
      exact List.forall_mem_cons.mpr ⟨rfl, List.forall_mem_singleton.mpr rfl⟩
    · rw [Sender.run_of_not_built lib env ctx s next hf hb]
      exact List.forall_mem_singleton.mpr rfl
  · rw [Sender.run_of_not_found lib env ctx s next hf]
    exact List.forall_mem_singleton.mpr rfl

theorem through_onMessages {env : ActionEnv Attr} {msg : TuyalinkMessage} {next n : Nat}
    {es : List Effect} (h : onMessages lib env ctx msg next = .ok (n, es)) : Through ctx es := by
  obtain ⟨type, dataString⟩ := msg
  cases type with
  | actionExecute =>
    have hrun : executeAction lib env ctx dataString next = .ok (n, es) := h
    rw [executeAction_command] at hrun
    cases hrun
    refine (through_single rfl).append (.append ?_ (through_single rfl))
    cases commandOf env.undefinedCast (dataString.bind env.decode) with
    | none => exact through_of_none nofun
    | some s => exact through_run env.ubus s _
  | _ =>
    cases h
    exact through_of_none nofun

theorem through_callback {m m' : Memory} {cb : Callback (UbusEnv Attr) (ActionEnv Attr)}
    {es : List Effect} (h : callback lib m cb = some (m', es)) : Through m.userData es := by
  rcases callback_cases h with ⟨env, _, _, rfl⟩ | ⟨msg, env, next, fs, _, hrun, _, rfl⟩ |
    ⟨_, _, rfl⟩
  · exact (through_single rfl).append (through_run env .sendMemoryInfo m.next)
  · exact (through_single rfl).append (through_onMessages hrun)
  · intro c hc
    exact List.mem_singleton.mp hc

theorem callback_keeps {m m' : Memory} {cb : Callback (UbusEnv Attr) (ActionEnv Attr)}
    {es : List Effect} (h : callback lib m cb = some (m', es)) :
    m'.userData = m.userData ∧ m'.ubusCtx = m.ubusCtx := by
  rcases callback_cases h with ⟨env, _, rfl, _⟩ | ⟨msg, env, next, fs, _, _, rfl, _⟩ |
    ⟨_, rfl, _⟩
  · exact ⟨rfl, rfl⟩
  · exact ⟨rfl, rfl⟩
  · exact ⟨rfl, rfl⟩

/-- The two places that hold the handle are the same after callbacks, and these used the one in
the context. -/
theorem through_callbacks {m m' : Memory} {cbs : List (Callback (UbusEnv Attr) (ActionEnv Attr))}
    {es : List Effect} (run : Run (callback lib) m cbs es m') :
    (m'.userData = m.userData ∧ m'.ubusCtx = m.ubusCtx) ∧ Through m.userData es := by
  induction run with
  | nil m => exact ⟨⟨rfl, rfl⟩, through_of_none nofun⟩
  | cons hstep _ ih =>
    have hsame := (callback_keeps hstep)
    rw [hsame.1, hsame.2] at ih
    exact ⟨ih.1, (through_callback hstep).append ih.2⟩

/-! ## The program -/

/-- `init_connections` does not fail. -/
structure BusOpened (es : List (Event Effect)) : Prop where
  init : ∀ config ret, .own (.mqttInit config ret) ∈ es → ret = oprtOk
  ubusConnect : .own (.ubusConnect none) ∉ es

theorem BusOpened.of_append {es fs : List (Event Effect)} (h : BusOpened (es ++ fs)) :
    BusOpened es :=
  ⟨fun config ret hmem => h.init config ret (List.mem_append_left _ hmem),
    fun hmem => h.ubusConnect (List.mem_append_left _ hmem)⟩

theorem BusOpened.of_append_right {es fs : List (Event Effect)} (h : BusOpened (es ++ fs)) :
    BusOpened fs :=
  ⟨fun config ret hmem => h.init config ret (List.mem_append_right _ hmem),
    fun hmem => h.ubusConnect (List.mem_append_right _ hmem)⟩

def leaving : Pc → Bool
  | .cleanupEnd _ => true
  | .exited _ => true
  | _ => false

/-- The handle is not there yet, was never there, or is in both its places. -/
inductive Attached (s : State Pc Memory) (es : List (Event Effect)) : Prop where
  | before (hpc : early s.pc = true)
  | never (hpc : leaving s.pc = true)
  | holding (b : UbusContext) (hm : Holds b s.mem) (hb : .own (.ubusConnect (some b)) ∈ es)

/-- The events of a step are given the handle that is there. -/
def UsesHeld (s : State Pc Memory) (h es : List (Event Effect)) : Prop :=
  ∀ e ∈ es, ∀ ctx, handle? e = some ctx →
    ∃ b, ctx = some b ∧ Holds b s.mem ∧ .own (.ubusConnect (some b)) ∈ h

section
variable {s t : State Pc Memory} {es h : List (Event Effect)}

/-- Only the calls that `main` makes once come before or after the handle. -/
theorem Attached.holds (ha : Attached s h) {ins : Instr Pc Memory Ask Effect}
    (hi : instr s.pc = ins) (hask : ∀ next, ins ≠ .ask next) (hexit : ins ≠ .exit) :
    ∃ b, Holds b s.mem ∧ .own (.ubusConnect (some b)) ∈ h := by
  subst hi
  obtain ⟨pc, k, mem⟩ := s
  cases ha with
  | before hpc =>
    cases pc <;> first
      | exact absurd rfl (hask _)
      | cases hpc
  | never hpc =>
    cases pc <;> first
      | exact absurd rfl (hask _)
      | exact absurd rfl hexit
      | cases hpc
  | holding b hm hb => exact ⟨b, hm, hb⟩

theorem usesHeld_of_none (hes : ∀ e ∈ es, handle? e = none) : UsesHeld s h es := by
  intro e he ctx hctx
  rw [hes e he] at hctx
  cases hctx

theorem usesHeld_of_through {b : UbusContext} {ctx : Option UbusContext} {gs : List Effect}
    (hm : Holds b s.mem) (hb : .own (.ubusConnect (some b)) ∈ h) (hctx : ctx = some b)
    (hgs : Through ctx gs) : UsesHeld s h (gs.map .own) := by
  intro e he c hc
  obtain ⟨g, hg, rfl⟩ := List.mem_map.mp he
  have heq := hgs c (List.mem_filterMap.mpr ⟨g, hg, hc⟩)
  exact ⟨b, heq.trans hctx, hm, hb⟩

theorem UsesHeld.append {fs : List (Event Effect)} (hes : UsesHeld s h es)
    (hfs : UsesHeld s h fs) : UsesHeld s h (es ++ fs) :=
  fun e he => (List.mem_append.mp he).elim (hes e) (hfs e)

theorem attached_ask {next : Ask → Memory → Outcome} {a : Ask} {pc : Pc} {m : Memory}
    {gs : List Effect} (ha : Attached s h) (hi : instr s.pc = .ask next)
    (hask : next a s.mem = some (pc, m, gs)) (hgs : BusOpened (gs.map .own)) :
    Attached { s with pc, mem := m } (h ++ gs.map .own) ∧ ∀ g ∈ gs, g.handle? = none := by
  obtain ⟨spc, k, mem⟩ := s
  cases spc with
  | uciAlloc =>
    cases hi
    rcases allocUci_cases hask with ⟨rfl, _, rfl⟩ | ⟨_, rfl, _, rfl⟩
    · exact ⟨.never rfl, List.forall_mem_singleton.mpr rfl⟩
    · exact ⟨.before rfl, List.forall_mem_singleton.mpr rfl⟩
  | options =>
    cases hi
    obtain ⟨rfl | ⟨_, rfl⟩, _, rfl⟩ := loadOptions_cases hask
    · exact ⟨.never rfl, nofun⟩
    · exact ⟨.before rfl, nofun⟩
  | mqttInit o =>
    cases hi
    obtain ⟨_, config, ret, rfl, ⟨_, hret⟩ | ⟨rfl, _⟩⟩ := initMqtt_cases hask
    · exact absurd (hgs.init config ret List.mem_cons_self) hret
    · exact ⟨.before rfl, List.forall_mem_singleton.mpr rfl⟩
  | ubusConnect =>
    cases hi
    rcases connectUbus_cases hask with ⟨_, _, rfl⟩ | ⟨b, rfl, rfl, rfl⟩
    · exact absurd List.mem_cons_self hgs.ubusConnect
    · refine ⟨.holding b ⟨rfl, rfl⟩ ?_, List.forall_mem_singleton.mpr rfl⟩
      exact List.mem_append_right _ List.mem_cons_self
  | setupConnected =>
    cases hi
    have hheld : ∃ b, Holds b mem ∧ .own (.ubusConnect (some b)) ∈ h := by
      cases ha with
      | before hpc => cases hpc
      | never hpc => cases hpc
      | holding b hm hb => exact ⟨b, hm, hb⟩
    obtain ⟨b, hm, hb⟩ := hheld
    obtain ⟨rfl, ⟨rfl, rfl⟩ | ⟨rfl, rfl⟩⟩ := askConnected_cases hask
    · exact ⟨.holding b hm (List.mem_append_left _ hb), List.forall_mem_singleton.mpr rfl⟩
    · exact ⟨.holding b hm (List.mem_append_left _ hb), List.forall_mem_singleton.mpr rfl⟩
  | cleanupEnd retVal =>
    cases hi
    obtain ⟨rfl, rfl, rfl⟩ := cleanUp_cases hask
    refine ⟨.never rfl, ?_⟩
    intro g hg
    rcases List.mem_append.mp hg with hg | hg
    · obtain ⟨name, _, rfl⟩ := List.mem_map.mp hg
      rfl
    · obtain rfl := List.mem_singleton.mp hg
      rfl
  | _ => cases hi

variable {i : ProgramInput Attr}

/-- A step that leaves the memory alone and uses no handle. -/
theorem Attached.move (ha : Attached s h) {ins : Instr Pc Memory Ask Effect}
    (hi : instr s.pc = ins) (hask : ∀ next, ins ≠ .ask next) (hexit : ins ≠ .exit) (pc : Pc)
    (hes : ∀ e ∈ es, handle? e = none) :
    Attached { s with pc } (h ++ es) ∧ UsesHeld s h es := by
  obtain ⟨b, hm, hb⟩ := ha.holds hi hask hexit
  exact ⟨.holding b hm (List.mem_append_left _ hb), usesHeld_of_none hes⟩

theorem attached_step (ha : Attached s h) (hstep : step (program lib) s i = some (t, es))
    (hes : BusOpened es) : Attached t (h ++ es) ∧ UsesHeld s h es := by
  cases transition_of_step hstep with
  | signal =>
    refine ⟨?_, usesHeld_of_none nofun⟩
    cases ha with
    | before hpc => exact .before hpc
    | never hpc => exact .never hpc
    | holding b hm hb => exact .holding b hm (List.mem_append_left _ hb)
  | enter hi _ _ => exact ha.move hi nofun nofun _ (List.forall_mem_singleton.mpr rfl)
  | leave hi _ => exact ha.move hi nofun nofun _ nofun
  | sleep hi => exact ha.move hi nofun nofun _ (List.forall_mem_singleton.mpr rfl)
  | deinit hi => exact ha.move hi nofun nofun _ (List.forall_mem_singleton.mpr rfl)
  | @sdk c next callbacks ret mem gs hi hrun =>
    obtain ⟨b, hm, hb⟩ := ha.holds hi nofun nofun
    obtain ⟨⟨huser, hctx⟩, hgs⟩ := through_callbacks hrun
    refine ⟨.holding b ⟨huser.trans hm.1, hctx.trans hm.2⟩ (List.mem_append_left _ hb), ?_⟩
    apply UsesHeld.append ?_ (usesHeld_of_none (List.forall_mem_singleton.mpr rfl))
    have hcall : UsesHeld s h [.call c] := usesHeld_of_none (List.forall_mem_singleton.mpr rfl)
    exact hcall.append (usesHeld_of_through hm hb hm.1 hgs)
  | @send next env ok mem gs hi hsend =>
    obtain ⟨b, hm, hb⟩ := ha.holds hi nofun nofun
    obtain ⟨rfl, rfl⟩ := periodicSend_cases hsend
    refine ⟨.holding b hm (List.mem_append_left _ hb), ?_⟩
    apply UsesHeld.append ?_ (usesHeld_of_none (List.forall_mem_singleton.mpr rfl))
    have hcall : UsesHeld s h [.periodicSend] :=
      usesHeld_of_none (List.forall_mem_singleton.mpr rfl)
    exact hcall.append (usesHeld_of_through hm hb hm.2
      (through_run env .sendMemoryInfo s.mem.next))
  | ask hi hask =>
    obtain ⟨ht, hgs⟩ := attached_ask ha hi hask hes
    refine ⟨ht, usesHeld_of_none fun e he => ?_⟩
    obtain ⟨g, hg, rfl⟩ := List.mem_map.mp he
    exact hgs g hg

variable {is : List (ProgramInput Attr)} {e : Event Effect} {ctx : Option UbusContext}

theorem held_of_run (run : Run (step (program lib)) s is es t) (ha : Attached s h)
    (hes : BusOpened es) (he : handle? e = some ctx) :
    Precedes (fun xs => ∃ b, ctx = some b ∧ .own (.ubusConnect (some b)) ∈ h ++ xs) e es := by
  induction run generalizing h with
  | nil =>
    intro xs ys heq
    cases xs <;> cases heq
  | @cons s t u i is es fs hstep _ ih =>
    obtain ⟨ht, hheld⟩ := attached_step ha hstep hes.of_append
    apply Precedes.append
    · intro xs ys heq
      have hmem : e ∈ es := heq ▸ List.mem_append_right xs List.mem_cons_self
      obtain ⟨b, hctx, _, hb⟩ := hheld e hmem ctx he
      exact ⟨b, hctx, List.mem_append_left xs hb⟩
    · intro xs ys heq
      obtain ⟨b, hctx, hb⟩ := ih ht hes.of_append_right xs ys heq
      rw [List.append_assoc] at hb
      exact ⟨b, hctx, hb⟩

/-- Where `init_connections` does not fail, every operation on the bus and every `ubus_free`
is given a handle that `ubus_connect` has returned before. -/
theorem handle_of_run (run : Run (step (program lib)) start is es s) (hes : BusOpened es)
    (he : handle? e = some ctx) :
    Precedes (fun xs => ∃ b, ctx = some b ∧ .own (.ubusConnect (some b)) ∈ xs) e es :=
  held_of_run run (h := []) (.before rfl) hes he

end
end

/-- The lookup and the `ubus_free` of that run are given the handle 5. -/
theorem handle_of_run_wholeLife : ∃ t,
    Run (step (program Blob.blobmsg)) start wholeLife wholeLifeEvents t ∧
      ∀ e ctx, handle? e = some ctx → Precedes
        (fun xs => ∃ b, ctx = some b ∧ .own (.ubusConnect (some b)) ∈ xs) e wholeLifeEvents := by
  have hrun : Run (step (program Blob.blobmsg)) start wholeLife wholeLifeEvents _ :=
    run_of_exec rfl
  have hopened : BusOpened wholeLifeEvents := by
    constructor
    · simp [wholeLifeEvents, released]
    · simp [wholeLifeEvents, released]
  exact ⟨_, hrun, fun _ _ he => handle_of_run hrun hopened he⟩

end TuyaDaemon.Openwrt
