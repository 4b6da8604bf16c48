import TuyaDaemon.SetUp
import TuyaDaemon.Standalone.Main
import TuyaDaemon.Standalone.PropertySet
import TuyaDaemon.Standalone.TimeReport

/-!
# Set-up of the stand-alone daemon

`connect_to_tuya` runs five turns of `tuya_mqtt_loop` whether or not the connection comes up,
and the main loop one more before the first periodic send. So six returns of
`tuya_mqtt_loop` precede the first send, and that is all that is known about it.
-/

namespace TuyaDaemon.Standalone

set_option autoImplicit false

open Daemon EventMachine

def stage : Pc → Stage
  | .argpParse => .dialing
  | .becomeDaemon _ => .dialing
  | .mqttInit _ => .dialing
  | .connect => .dialing
  | .retryHead _ _ ret => if ret = oprtOk then .initialised else .dialing
  | .retrySleep _ _ => .dialing
  | .retryConnect _ _ => .dialing
  | .setupHead _ => .initialised
  | .setupLoop _ => .initialised
  | .mainHead _ => .initialised
  | .mainLoop _ => .initialised
  | .mainSleep _ => .initialised
  | .mainSend _ => .initialised
  | _ => .over

/-! The connection, as the events of a run tell it. -/

/-- `is_connected` after an event: the handlers tell what becomes of the connection. -/
def linkStep (linked : Bool) : Event Effect → Bool
  | .own .onConnected => true
  | .own .onDisconnect => false
  | _ => linked

def linkedAfter (es : List (Event Effect)) : Bool := es.foldl linkStep false

def Silent (e : Event Effect) : Prop := ∀ linked, linkStep linked e = linked

theorem foldl_linkStep_of_silent {es : List (Event Effect)} (h : ∀ e ∈ es, Silent e)
    (linked : Bool) : es.foldl linkStep linked = linked := by
  induction es with
  | nil => rfl
  | cons e es ih =>
    rw [List.foldl_cons, h e List.mem_cons_self]
    exact ih fun e he => h e (List.mem_cons_of_mem _ he)

theorem linkedAfter_append_silent {es fs : List (Event Effect)} (h : ∀ e ∈ fs, Silent e) :
    linkedAfter (es ++ fs) = linkedAfter es := by
  rw [linkedAfter, List.foldl_append, foldl_linkStep_of_silent h]
  rfl

theorem silent_of_freeDateTimeFormat (d : DateTimeFormat) :
    ∀ e ∈ (freeDateTimeFormat d).map Event.own, Silent e := by
  unfold freeDateTimeFormat
  split <;> simp [Silent, linkStep]

/-! The calls before the first connection. -/

def early : Pc → Bool
  | .argpParse => true
  | .becomeDaemon _ => true
  | .mqttInit _ => true
  | .connect => true
  | _ => false

section Ask
variable {a : Ask} {m m' : Memory} {pc pc' : Pc} {es : List Effect}

/-- The calls before the first `tuya_mqtt_connect` lead to it or out of the program. -/
theorem ask_cases {next : Ask → Memory → Outcome} (hi : instr pc = .ask next)
    (hask : next a m = some (pc', m', es)) :
    ((early pc = true ∧ early pc' = true) ∨ (∃ retVal, pc' = .exited retVal) ∨
      ∃ status, pc' = .argpExited status) ∧
      m' = m ∧ ∀ e ∈ es.map Event.own, Silent e := by
  cases pc with
  | argpParse =>
    obtain rfl := Instr.ask.inj hi
    obtain ⟨rfl | ⟨_, rfl⟩ | ⟨_, rfl | rfl⟩, rfl, rfl⟩ := readArguments_cases hask
    · exact ⟨Or.inr (Or.inl ⟨_, rfl⟩), rfl, by simp⟩
    · exact ⟨Or.inr (Or.inr ⟨_, rfl⟩), rfl, by simp⟩
    · exact ⟨Or.inl ⟨rfl, rfl⟩, rfl, by simp⟩
    · exact ⟨Or.inl ⟨rfl, rfl⟩, rfl, by simp⟩
  | becomeDaemon arguments =>
    obtain rfl := Instr.ask.inj hi
    obtain ⟨rfl | rfl, rfl, rfl⟩ := checkDaemon_cases hask
    · exact ⟨Or.inr (Or.inl ⟨_, rfl⟩), rfl, by simp⟩
    · exact ⟨Or.inl ⟨rfl, rfl⟩, rfl, by simp⟩
  | mqttInit arguments =>
    obtain rfl := Instr.ask.inj hi
    obtain ⟨rfl | rfl, rfl, _, _, rfl⟩ := initTuya_cases hask
    · exact ⟨Or.inr (Or.inl ⟨_, rfl⟩), rfl, by simp [Silent, linkStep]⟩
    · exact ⟨Or.inl ⟨rfl, rfl⟩, rfl, by simp [Silent, linkStep]⟩
  | freeFormat retVal =>
    obtain rfl := Instr.ask.inj hi
    obtain ⟨rfl, rfl, rfl⟩ := freeOnExit_cases hask
    exact ⟨Or.inr (Or.inl ⟨_, rfl⟩), rfl, silent_of_freeDateTimeFormat _⟩
  | _ => cases hi

theorem stage_of_early (h : early pc = true) : stage pc = .dialing := by
  cases pc <;> first
    | rfl
    | cases h

end Ask

theorem instr_keeps (pc : Pc) : (instr pc).Keeps stage (stage pc) := by
  have hask : ∀ next, instr pc = .ask next → (instr pc).Keeps stage (stage pc) := by
    intro next hi
    rw [hi]
    intro a m pc' m' es h
    rcases (ask_cases hi h).1 with ⟨hpc, hpc'⟩ | ⟨retVal, rfl⟩ | ⟨status, rfl⟩
    · rw [stage_of_early hpc]
      exact Or.inl (stage_of_early hpc')
    · exact Or.inr rfl
    · exact Or.inr rfl
  cases pc with
  | argpParse => exact hask _ rfl
  | becomeDaemon arguments => exact hask _ rfl
  | mqttInit arguments => exact hask _ rfl
  | connect => exact ⟨rfl, fun _ => rfl⟩
  | retryHead i sleepSeconds ret =>
    by_cases hret : ret = oprtOk
    · simp [Instr.Keeps, instr, stage, hret, Stage.Leads]
    · simp [Instr.Keeps, instr, stage, hret, Stage.Leads]
  | retrySleep i sleepSeconds => exact Or.inl rfl
  | retryConnect i sleepSeconds => exact ⟨rfl, fun _ => rfl⟩
  | setupHead i => exact ⟨fun _ => Or.inl rfl, Or.inl rfl⟩
  | setupLoop i =>
    refine ⟨by simp [stage], fun ret => ?_⟩
    by_cases hret : ret = oprtOk <;> simp [stage, hret, Stage.Leads]
  | mainHead c => exact ⟨fun _ => Or.inl rfl, Or.inr rfl⟩
  | mainLoop c =>
    refine ⟨by simp [stage], fun ret => ?_⟩
    by_cases hret : ret = oprtOk <;> simp [stage, hret, Stage.Leads]
  | mainSleep c => exact Or.inl rfl
  | mainSend c =>
    intro ok
    by_cases hc : c + 1 = 10 <;> cases ok <;> simp [stage, hc, Stage.Leads]
  | cleanup retVal => exact ⟨by simp [stage], fun _ => Or.inl rfl⟩
  | mqttDeinit retVal => exact Or.inl rfl
  | freeFormat retVal => exact hask _ rfl
  | exited retVal => exact trivial
  | argpExited status => exact trivial

def dial {Tm : Type} (lib : Strftime Tm) : Dial (program lib) where
  stage := stage
  keeps := instr_keeps

/-! The turns of tuya_mqtt_loop before a send. -/

def isLoopReturn : Event Effect → Bool
  | .returned (.loop _) _ => true
  | _ => false

def loopReturns (es : List (Event Effect)) : Nat := es.countP isLoopReturn

@[simp] theorem loopReturns_append (es fs : List (Event Effect)) :
    loopReturns (es ++ fs) = loopReturns es + loopReturns fs := List.countP_append

@[simp] theorem loopReturns_map_own (es : List Effect) : loopReturns (es.map .own) = 0 := by
  apply List.countP_eq_zero.mpr
  simp [isLoopReturn]

@[simp] theorem loopReturns_cons (e : Event Effect) (es : List (Event Effect)) :
    loopReturns (e :: es) = loopReturns es + if isLoopReturn e then 1 else 0 := List.countP_cons

@[simp] theorem loopReturns_nil : loopReturns [] = 0 := rfl

/-- Five turns are over; before the first send, exactly five. -/
def FiveTurns (h : List (Event Effect)) : Prop :=
  5 ≤ loopReturns h ∧ (.periodicSend ∉ h → loopReturns h = 5)

theorem FiveTurns.append {h es : List (Event Effect)} (hfive : FiveTurns h)
    (hes : loopReturns es = 0) : FiveTurns (h ++ es) := by
  obtain ⟨hge, hfirst⟩ := hfive
  rw [FiveTurns, loopReturns_append, hes]
  refine ⟨hge, ?_⟩
  intro hsend
  exact hfirst fun hmem => hsend (List.mem_append_left _ hmem)

/-- How many turns there have been, by program point. -/
def TurnsDone (s : State Pc Memory) (h : List (Event Effect)) : Prop :=
  match s.pc with
  | .setupHead i => loopReturns h = i ∧ i ≤ 5
  | .setupLoop i => loopReturns h = i ∧ i < 5
  | .mainHead _ => s.keepRunning = true → FiveTurns h
  | .mainLoop _ => FiveTurns h
  | .mainSleep _ => ∃ zs, h = zs ++ [.returned (.loop .main) oprtOk] ∧ FiveTurns zs
  | .mainSend _ => ∃ zs, h = zs ++ [.returned (.loop .main) oprtOk, .sleep 10] ∧ FiveTurns zs
  | .cleanup _ => True
  | .mqttDeinit _ => True
  | .freeFormat _ => True
  | .exited _ => True
  | .argpExited _ => True
  | _ => loopReturns h = 0

section
variable {Tm : Type} {lib : Strftime Tm} {s t : State Pc Memory}
  {i : Input (TimeEnv Tm) Decoder (TimeEnv Tm) Ask} {es h : List (Event Effect)}

theorem turnsDone_of_early {s : State Pc Memory} (hpc : early s.pc = true) :
    TurnsDone s h ↔ loopReturns h = 0 := by
  obtain ⟨pc, k, m⟩ := s
  cases pc <;> first
    | exact Iff.rfl
    | cases hpc

theorem turnsDone_ask {pc pc' : Pc} {k : Bool} {m m' : Memory} {next : Ask → Memory → Outcome}
    {a : Ask} {gs : List Effect} (hi : instr pc = .ask next) (hs : TurnsDone ⟨pc, k, m⟩ h)
    (hask : next a m = some (pc', m', gs)) : TurnsDone ⟨pc', k, m'⟩ (h ++ gs.map .own) := by
  rcases (ask_cases hi hask).1 with ⟨hpc, hpc'⟩ | ⟨retVal, rfl⟩ | ⟨status, rfl⟩
  · apply (turnsDone_of_early hpc').mpr
    rw [loopReturns_append, (turnsDone_of_early hpc).mp hs, loopReturns_map_own]
  · trivial
  · trivial

/-- The sixth turn, and every one after it, gets to the send. -/
theorem turnsDone_mainLoop {c : UInt32} {k : Bool} {m : Memory} (hs : FiveTurns h)
    (gs : List Effect) : TurnsDone ⟨.mainSleep c, k, m⟩
      (h ++ (.call (.loop .main) :: gs.map .own ++ [.returned (.loop .main) oprtOk])) := by
  have hquiet : loopReturns (.call (.loop .main) :: gs.map .own) = 0 := by
    simp [isLoopReturn]
  exact ⟨h ++ .call (.loop .main) :: gs.map .own, by rw [List.append_assoc], hs.append hquiet⟩

theorem FiveTurns.of_send {zs : List (Event Effect)} (hs : FiveTurns zs) (gs : List Effect)
    (ok : Bool) : FiveTurns (zs ++ [.returned (.loop .main) oprtOk, .sleep 10] ++
      (.periodicSend :: gs.map .own ++ [.sent ok])) := by
  obtain ⟨hge, _⟩ := hs
  constructor
  · simp only [loopReturns_append]
    omega
  · intro hsend
    exact absurd (List.mem_append_right _ List.mem_cons_self) hsend

theorem TurnsDone.keep (hs : TurnsDone s h) (hstep : step (program lib) s i = some (t, es)) :
    TurnsDone t (h ++ es) := by
  refine step_ensures (Q := fun t es => TurnsDone t (h ++ es)) hstep ?_ ?_
  · rw [List.append_nil]
    obtain ⟨pc, k, m⟩ := s
    cases pc with
    | mainHead c =>
      intro hk
      cases hk
    | _ => exact hs
  obtain ⟨pc, k, m⟩ := s
  cases pc with
  | argpParse => exact fun _ _ _ _ hask => turnsDone_ask rfl hs hask
  | becomeDaemon arguments => exact fun _ _ _ _ hask => turnsDone_ask rfl hs hask
  | mqttInit arguments => exact fun _ _ _ _ hask => turnsDone_ask rfl hs hask
  | connect =>
    intro _ _ _ _ _
    change loopReturns h = 0 at hs
    simp [TurnsDone, hs, isLoopReturn]
  | retryHead j sleepSeconds ret =>
    change loopReturns h = 0 at hs
    constructor
    · intro _ _
      simp [TurnsDone, hs, isLoopReturn]
    · intro _
      rw [List.append_nil]
      by_cases hret : ret = oprtOk
      · rw [if_neg (not_not.mpr hret)]
        exact ⟨hs, by decide⟩
      · rw [if_pos hret]
        trivial
  | retrySleep j sleepSeconds =>
    change loopReturns h = 0 at hs
    change loopReturns (h ++ [.sleep sleepSeconds]) = 0
    simp [hs, isLoopReturn]
  | retryConnect j sleepSeconds =>
    intro _ _ _ _ _
    change loopReturns h = 0 at hs
    simp [TurnsDone, hs, isLoopReturn]
  | setupHead j =>
    obtain ⟨hloops, hle⟩ := hs
    constructor
    · intro hlt _
      refine ⟨?_, of_decide_eq_true hlt⟩
      rw [loopReturns_append, hloops]
      rfl
    · intro hleave
      rw [List.append_nil]
      rintro rfl
      have hge : ¬ j < 5 := by simpa using hleave
      refine ⟨by omega, ?_⟩
      intro _
      omega
  | setupLoop j =>
    intro _ ret _ _ _
    obtain ⟨hloops, hlt⟩ := hs
    by_cases hret : ret = oprtOk
    · simp only [hret, ne_eq, not_true_eq_false, if_false]
      refine ⟨?_, hlt⟩
      simp [hloops, isLoopReturn]
    · simp only [hret, ne_eq, not_false_eq_true, if_true]
      trivial
  | mainHead c =>
    constructor
    · intro _ hk
      exact (hs hk).append rfl
    · intro _
      trivial
  | mainLoop c =>
    intro _ ret _ gs _
    by_cases hret : ret = oprtOk
    · simp only [hret, ne_eq, not_true_eq_false, if_false]
      exact turnsDone_mainLoop hs gs
    · simp only [hret, ne_eq, not_false_eq_true, if_true]
      trivial
  | mainSleep c =>
    obtain ⟨zs, rfl, hfive⟩ := hs
    exact ⟨zs, by simp, hfive⟩
  | mainSend c =>
    intro _ ok _ gs _
    obtain ⟨zs, rfl, hfive⟩ := hs
    cases ok with
    | true => exact fun _ => hfive.of_send gs true
    | false =>
      by_cases hc : c + 1 = 10
      · simp only [Bool.not_false, if_true, if_pos hc]
        trivial
      · simp only [Bool.not_false, if_true, if_neg hc]
        exact fun _ => hfive.of_send gs false
  | cleanup retVal => exact fun _ _ _ _ _ => trivial
  | mqttDeinit retVal => trivial
  | freeFormat retVal => exact fun _ _ _ _ hask => turnsDone_ask rfl hs hask
  | exited retVal => trivial
  | argpExited status => trivial

end

section Handlers
variable {Tm : Type} (lib : Strftime Tm)

theorem silent_of_sendCurrentTime {env : TimeEnv Tm} {format : CString} {ret : Int}
    {es : List Effect} (h : sendCurrentTime lib env format = .ok (ret, es)) :
    ∀ e ∈ es.map Event.own, Silent e := by
  obtain ⟨_, _, hsend, hes⟩ := sendCurrentTime_outcome lib env format
  rw [h] at hsend
  cases hsend
  rcases hes with rfl | ⟨msg, rfl⟩
  · simp
  · simp [Silent, linkStep]

theorem silent_of_onMessages {decode : Decoder} {msg : TuyalinkMessage}
    {d d' : DateTimeFormat} {next next' : Nat} {es : List Effect}
    (h : onMessages decode msg d next = .ok (d', next', es)) :
    ∀ e ∈ es.map Event.own, Silent e := by
  rcases onMessages_cases h with ⟨_, _, ⟨_, rfl⟩ | ⟨j, _, rfl⟩⟩ | ⟨s, rest, _, _, _, rfl⟩
  · simp
  · simp [discard, Silent, linkStep]
  · have hfree := silent_of_freeDateTimeFormat d
    simp only [List.cons_append, List.map_cons, List.map_append, List.mem_cons,
      List.mem_append, List.map_nil, List.not_mem_nil, or_false]
    rintro e (rfl | he | rfl)
    · exact fun _ => rfl
    · exact hfree e he
    · exact fun _ => rfl

theorem linkedAfter_callback {m m' : Memory} {cb : Callback (TimeEnv Tm) Decoder}
    {es : List Effect} (h : callback lib m cb = some (m', es)) :
    (es.map Event.own).foldl linkStep m.linked = m'.linked := by
  unfold callback at h
  split at h
  · cases h
  · rename_i linked hl
    cases cb with
    | onConnected env =>
      simp only at h
      split at h
      · cases h
      · rename_i hsend
        cases h
        simp only [Callback.link] at hl
        split at hl
        · cases hl
        · cases hl
          rw [List.map_cons, List.foldl_cons]
          exact foldl_linkStep_of_silent (silent_of_sendCurrentTime lib hsend) _
    | onMessages msg decode =>
      simp only at h
      split at h
      · cases h
      · rename_i hmsg
        cases h
        simp only [Callback.link] at hl
        split at hl
        · rename_i hlinked
          cases hl
          rw [List.map_cons, List.foldl_cons, hlinked]
          exact foldl_linkStep_of_silent (silent_of_onMessages hmsg) _
        · cases hl
    | onDisconnect =>
      cases h
      simp only [Callback.link] at hl
      split at hl
      · cases hl
        rfl
      · cases hl

theorem linkedAfter_callbacks {m m' : Memory}
    {cbs : List (Callback (TimeEnv Tm) Decoder)} {es : List Effect}
    (run : Run (callback lib) m cbs es m') :
    (es.map Event.own).foldl linkStep m.linked = m'.linked := by
  have hrun := run.history (P := fun s gs => (gs.map Event.own).foldl linkStep m.linked = s.linked)
    ?_ (h := []) rfl
  · exact hrun
  · intro s i t gs ks hs hstep
    rw [List.map_append, List.foldl_append, hs]
    exact linkedAfter_callback lib hstep

end Handlers

section
variable {Tm : Type} {lib : Strftime Tm} {s t : State Pc Memory}
  {i : Input (TimeEnv Tm) Decoder (TimeEnv Tm) Ask} {es h : List (Event Effect)}

theorem linkedAfter_step (hs : linkedAfter h = s.mem.linked)
    (hstep : step (program lib) s i = some (t, es)) : linkedAfter (h ++ es) = t.mem.linked := by
  have hsilent : ∀ {fs : List (Event Effect)}, (∀ e ∈ fs, Silent e) →
      linkedAfter (h ++ fs) = s.mem.linked :=
    fun hfs => (linkedAfter_append_silent hfs).trans hs
  cases transition_of_step hstep with
  | signal => exact hsilent (by simp)
  | enter => exact hsilent (by simp [Silent, linkStep])
  | leave => exact hsilent (by simp)
  | sleep => exact hsilent (by simp [Silent, linkStep])
  | deinit => exact hsilent (by simp [Silent, linkStep])
  | @sdk c next callbacks ret mem gs hi hrun =>
    have hlinks := linkedAfter_callbacks lib hrun
    simp only [linkedAfter, List.foldl_append, List.foldl_cons, List.foldl_nil] at hs ⊢
    rw [hs]
    exact hlinks
  | @send next env ok mem gs hi hsend =>
    simp only [program, periodicSend] at hsend
    split at hsend
    · cases hsend
    · rename_i hreport
      cases hsend
      apply hsilent
      rw [List.cons_append, List.forall_mem_cons, List.forall_mem_append]
      exact ⟨by simp [Silent, linkStep], silent_of_sendCurrentTime lib hreport,
        by simp [Silent, linkStep]⟩
  | ask hi hask =>
    obtain ⟨_, rfl, hquiet⟩ := ask_cases hi hask
    exact hsilent hquiet

/-- What the events say about the connection is what the context says. -/
theorem linkedAfter_eq {is : List (Input (TimeEnv Tm) Decoder (TimeEnv Tm) Ask)}
    (run : Run (step (program lib)) start is es s) : linkedAfter es = s.mem.linked := by
  have hrun := run.history (P := fun s h => linkedAfter h = s.mem.linked)
    (fun hs hstep => linkedAfter_step hs hstep) (h := []) rfl
  exact hrun

/-- `is_connected` was true at some time since `tuya_mqtt_connect` returned OPRT_OK, and it
was not called again. -/
def UpSinceConnect (es : List (Event Effect)) : Prop :=
  ∃ a b, SinceConnect es a b ∧ ∃ c, c <+: b ∧ linkedAfter (a ++ connectOk :: c) = true

theorem UpSinceConnect.append {xs ys : List (Event Effect)} (h : UpSinceConnect xs)
    (hsettled : Settled (xs ++ ys)) : UpSinceConnect (xs ++ ys) := by
  obtain ⟨a, b, ⟨rfl, _⟩, c, hc, hlinked⟩ := h
  refine ⟨a, b ++ ys, hsettled.sinceConnect ?_, c, hc.trans (List.prefix_append b ys), hlinked⟩
  rw [List.append_assoc, List.cons_append]

/-- An event that does not concern the connection does not bring it up. -/
theorem UpSinceConnect.of_append {xs : List (Event Effect)} {e : Event Effect}
    (h : UpSinceConnect (xs ++ [e])) (hsilent : Silent e) (hne : e ≠ connectOk) :
    UpSinceConnect xs := by
  obtain ⟨a, b, ⟨heq, hcall⟩, c, hc, hlinked⟩ := h
  rcases List.eq_nil_or_concat b with rfl | ⟨b, x, rfl⟩
  · have hlast := (List.append_inj' heq rfl).2
    exact absurd (List.cons.inj hlast).1 hne
  · rw [List.concat_eq_append] at heq hcall hc
    rw [← List.cons_append, ← List.append_assoc] at heq
    obtain ⟨rfl, hx⟩ := List.append_inj' heq rfl
    obtain rfl := (List.cons.inj hx).1
    refine ⟨a, b, ⟨rfl, fun hmem => hcall (List.mem_append_left _ hmem)⟩, ?_⟩
    rcases List.prefix_concat_iff.mp hc with rfl | hc
    · rw [← List.cons_append, ← List.append_assoc,
        linkedAfter_append_silent (by simpa using hsilent)] at hlinked
      exact ⟨b, List.prefix_refl b, hlinked⟩
    · exact ⟨c, hc, hlinked⟩

theorem linkedAfter_eq_false {es : List (Event Effect)} (h : .own .onConnected ∉ es) :
    linkedAfter es = false := by
  unfold linkedAfter
  induction es with
  | nil => rfl
  | cons e es ih =>
    rw [List.mem_cons, not_or] at h
    obtain ⟨he, hes⟩ := h
    have hdown : linkStep false e = false := by
      unfold linkStep
      split
      · exact absurd rfl he
      · rfl
      · rfl
    rw [List.foldl_cons, hdown]
    exact ih hes

theorem UpSinceConnect.onConnected_mem {es : List (Event Effect)} (h : UpSinceConnect es) :
    .own .onConnected ∈ es := by
  obtain ⟨a, b, ⟨rfl, _⟩, c, ⟨d, rfl⟩, hlinked⟩ := h
  by_contra hnone
  have hdown : linkedAfter (a ++ connectOk :: c) = false := by
    apply linkedAfter_eq_false
    intro hmem
    apply hnone
    rw [← List.cons_append, ← List.append_assoc]
    exact List.mem_append_left d hmem
  rw [hdown] at hlinked
  cases hlinked

theorem mainSend_of_send {xs ys : List (Event Effect)}
    (hstep : step (program lib) s i = some (t, es)) (heq : es = xs ++ .periodicSend :: ys) :
    (∃ c, s.pc = .mainSend c) ∧ xs = [] := by
  obtain ⟨pc, k, m⟩ := s
  have hmem : .periodicSend ∈ es := by simp [heq]
  cases transition_of_step hstep with
  | @send next env ok mem gs hi _ =>
    cases pc with
    | mainSend c =>
      refine ⟨⟨c, rfl⟩, ?_⟩
      rcases xs with _ | ⟨x, xs⟩
      · rfl
      · rw [List.cons_append, List.cons_append] at heq
        have hsend : .periodicSend ∈ gs.map Event.own ++ [.sent ok] := by
          rw [(List.cons.inj heq).2]
          exact List.mem_append_right _ List.mem_cons_self
        simp at hsend
    | _ => cases hi
  | _ => simp at hmem

/-- The last things before a periodic send, and the turns before them. -/
def SendDue (h : List (Event Effect)) : Prop :=
  ∃ zs, h = zs ++ [.returned (.loop .main) oprtOk, .sleep 10] ∧ FiveTurns zs

theorem SendDue.six_turns (hs : SendDue h) : 6 ≤ loopReturns h := by
  obtain ⟨zs, rfl, hge, _⟩ := hs
  rw [loopReturns_append]
  change 6 ≤ loopReturns zs + 1
  omega

section Runs
variable {is : List (Input (TimeEnv Tm) Decoder (TimeEnv Tm) Ask)}
  (run : Run (step (program lib)) start is es s)
include run

theorem sendDue_of_run : Precedes SendDue .periodicSend es := by
  refine run.precedes (P := TurnsDone) (fun hs hstep => hs.keep hstep) ?_ rfl
  intro s i t h es xs ys hs hstep heq
  obtain ⟨⟨c, hpc⟩, rfl⟩ := mainSend_of_send hstep heq
  rw [List.append_nil]
  rw [TurnsDone, hpc] at hs
  exact hs

theorem settled_of_run : Settled es := by
  have hrun := run.history (P := (dial lib).Dialed) (fun hs hstep => hs.keep hstep) (h := [])
    (Dial.Dialed.of_start rfl)
  exact hrun.settled

/-- The five turns of `connect_to_tuya` and the first one of the main loop do not wait for the
connection. Every send comes after it was up if and only if it was up before the sixth turn
was over, or nothing is sent. -/
theorem sends_after_up_iff : Precedes UpSinceConnect .periodicSend es ↔
    (.periodicSend ∈ es → ∃ xs, xs <+: es ∧ loopReturns xs ≤ 5 ∧ UpSinceConnect xs) := by
  have hdue := sendDue_of_run run
  constructor
  · intro hup hmem
    obtain ⟨xs, ys, heq, hfirst⟩ := List.eq_append_cons_of_mem hmem
    obtain ⟨zs, rfl, _, hfive⟩ := hdue xs ys heq
    have hzs : .periodicSend ∉ zs := fun hz => hfirst (List.mem_append_left _ hz)
    have hlast : UpSinceConnect (zs ++ [.returned (.loop .main) oprtOk] ++ [.sleep 10]) := by
      rw [List.append_assoc]
      exact hup _ ys heq
    have hmain := hlast.of_append (fun _ => rfl) (by simp)
    refine ⟨zs, ?_, (hfive hzs).le, hmain.of_append (fun _ => rfl) (by simp)⟩
    rw [heq, List.append_assoc]
    exact List.prefix_append _ _
  · intro hearly xs ys heq
    have hmem : .periodicSend ∈ es := by simp [heq]
    obtain ⟨zs, hzs, hturns, hup⟩ := hearly hmem
    have hxs : xs <+: es := heq ▸ List.prefix_append _ _
    rcases List.prefix_or_prefix_of_prefix hzs hxs with ⟨rest, rfl⟩ | ⟨rest, rfl⟩
    · refine hup.append ?_
      have hsettled := settled_of_run run
      rw [heq] at hsettled
      exact (List.pairwise_append.mp hsettled).1
    · have hsix := (hdue xs ys heq).six_turns
      rw [loopReturns_append] at hturns
      omega

end Runs
end

/-- The turns of the loops up to the first periodic send. The connection comes up in the
first of them if `callbacks` says so. -/
def toFirstSend (callbacks : List (Callback (TimeEnv Unit) Decoder)) :
    List (Input (TimeEnv Unit) Decoder (TimeEnv Unit) Ask) :=
  [.answer (.argv []), .answer (.mqttInit oprtOk), .returned [] oprtOk, .tick, .tick,
    .returned callbacks oprtOk, .tick, .returned [] oprtOk, .tick, .returned [] oprtOk, .tick,
    .returned [] oprtOk, .tick, .returned [] oprtOk, .tick, .tick, .returned [] oprtOk, .tick,
    .sent ⟨-1, fun _ => none, fun _ => 0⟩]

theorem sends_after_up_iff_first_turn : ∃ es t,
    Run (step (program plainStrftime)) start
      (toFirstSend [.onConnected ⟨-1, fun _ => none, fun _ => 0⟩]) es t ∧
    .periodicSend ∈ es ∧ Precedes UpSinceConnect .periodicSend es := by
  have hrun := @run_of_exec _ _ _ (step (program plainStrftime)) start _
    (toFirstSend [.onConnected ⟨-1, fun _ => none, fun _ => 0⟩]) _ rfl
  refine ⟨_, _, hrun, by decide, (sends_after_up_iff hrun).mpr fun _ => ?_⟩
  let early : List (Event Effect) := [.own (.mqttInit (tuyaMqttConfig none none) oprtOk),
    .call .connect]
  refine ⟨early ++ connectOk :: [.iteration .setup, .call (.loop .setup), .own .onConnected],
    ⟨_, rfl⟩, by decide, early, _, ⟨rfl, by decide⟩, _, List.prefix_refl _, rfl⟩

theorem not_sends_after_up_slow :
    ¬ ∀ is es t, Run (step (program plainStrftime)) start is es t →
      Precedes UpSinceConnect .periodicSend es := by
  intro h
  have hrun := @run_of_exec _ _ _ (step (program plainStrftime)) start _ (toFirstSend []) _ rfl
  have hconnected := ((h _ _ _ hrun).of_getElem? 22 rfl).onConnected_mem
  revert hconnected
  decide

end TuyaDaemon.Standalone
