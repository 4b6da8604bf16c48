import TuyaDaemon.Daemon

/-!
# From the first call of tuya_mqtt_connect to the main loop

Both daemons call `tuya_mqtt_connect` until it returns OPRT_OK, and never again. So there
is one such return in a run that gets on, and what follows it is what happened since.
-/

namespace TuyaDaemon.Daemon

set_option autoImplicit false

open EventMachine

inductive Stage where
  | dialing
  | initialised
  | over
  deriving DecidableEq, Repr

/-- Where a program point can lead without a successful `tuya_mqtt_connect`. -/
def Stage.Leads (a b : Stage) : Prop := b = a ∨ b = .over

theorem Stage.Leads.of_dialing {a : Stage} (h : a.Leads .dialing) : a = .dialing := by
  rcases h with h | h
  · exact h.symm
  · cases h

theorem Stage.Leads.of_initialised {a : Stage} (h : a.Leads .initialised) :
    a = .initialised := by
  rcases h with h | h
  · exact h.symm
  · cases h

variable {Pc Mem Conn Msg Env Ask ε : Type}

abbrev connectOk : Event ε := .returned .connect oprtOk

/-- `tuya_mqtt_connect` was last called at the end of `a`, returned OPRT_OK, and then `b`
happened. -/
def SinceConnect (es a b : List (Event ε)) : Prop :=
  es = a ++ connectOk :: b ∧ .call .connect ∉ b

def Settled (es : List (Event ε)) : Prop :=
  es.Pairwise fun e f => e = connectOk → f ≠ .call .connect

theorem Settled.sinceConnect {es a b : List (Event ε)} (h : Settled es)
    (heq : es = a ++ connectOk :: b) : SinceConnect es a b := by
  refine ⟨heq, ?_⟩
  intro hmem
  rw [heq] at h
  have hb := (List.pairwise_cons.mp (List.pairwise_append.mp h).2.1).1
  exact hb _ hmem rfl rfl

theorem settled_of_not_mem {es : List (Event ε)} (h : connectOk ∉ es) : Settled es := by
  apply List.pairwise_of_forall_mem_list
  rintro e he f _ rfl
  exact absurd he h

theorem Settled.append_quiet {es fs : List (Event ε)} (h : Settled es)
    (hok : connectOk ∉ fs) (hcall : .call .connect ∉ fs) : Settled (es ++ fs) := by
  apply List.pairwise_append.mpr
  refine ⟨h, settled_of_not_mem hok, ?_⟩
  rintro e _ f hf _ rfl
  exact hcall hf

theorem settled_append_connectOk {es : List (Event ε)} (h : connectOk ∉ es) :
    Settled (es ++ [connectOk]) := by
  apply List.pairwise_append.mpr
  refine ⟨settled_of_not_mem h, List.pairwise_singleton _ _, ?_⟩
  rintro e he _ _ rfl
  exact absurd he h

/-- An instruction keeps to the stages: only a `tuya_mqtt_connect` that returns OPRT_OK
leads on to the second. -/
def Instr.Keeps (stage : Pc → Stage) (a : Stage) : Instr Pc Mem Ask ε → Prop
  | .test _ condition enter leave =>
    (condition = true → a.Leads (stage enter)) ∧ a.Leads (stage leave)
  | .sleep _ next => a.Leads (stage next)
  | .sdk .connect next => a = .dialing ∧
    ∀ ret, stage (next ret) = if ret = oprtOk then .initialised else .dialing
  | .sdk _ next => a ≠ .dialing ∧ ∀ ret, a.Leads (stage (next ret))
  | .send next => ∀ ok, a.Leads (stage (next ok))
  | .ask next => ∀ q m pc m' es, next q m = some (pc, m', es) → a.Leads (stage pc)
  | .deinit next => a.Leads (stage next)
  | .exit => True

structure Dial (p : Program Pc Mem Conn Msg Env Ask ε) where
  stage : Pc → Stage
  keeps : ∀ pc, (p.instr pc).Keeps stage (stage pc)

namespace Dial
variable {p : Program Pc Mem Conn Msg Env Ask ε} (d : Dial p) {s t : State Pc Mem}
  {i : Input Conn Msg Env Ask} {es h : List (Event ε)}

theorem step_cases (hstep : step p s i = some (t, es)) :
    ((d.stage s.pc).Leads (d.stage t.pc) ∧ connectOk ∉ es ∧
      (d.stage s.pc ≠ .dialing → .call .connect ∉ es)) ∨
    (d.stage s.pc = .dialing ∧ d.stage t.pc = .initialised ∧
      ∃ fs, es = fs ++ [connectOk] ∧ connectOk ∉ fs) := by
  have hk := d.keeps s.pc
  cases transition_of_step hstep with
  | signal => exact Or.inl ⟨Or.inl rfl, by simp, by simp⟩
  | enter hi hc _ =>
    rw [hi] at hk
    exact Or.inl ⟨hk.1 hc, by simp, by simp⟩
  | leave hi _ =>
    rw [hi] at hk
    exact Or.inl ⟨hk.2, by simp, by simp⟩
  | sleep hi =>
    rw [hi] at hk
    exact Or.inl ⟨hk, by simp, by simp⟩
  | send hi _ =>
    rw [hi] at hk
    exact Or.inl ⟨hk _, by simp, by simp⟩
  | ask hi hask =>
    rw [hi] at hk
    exact Or.inl ⟨hk _ _ _ _ _ hask, by simp, by simp⟩
  | deinit hi =>
    rw [hi] at hk
    exact Or.inl ⟨hk, by simp, by simp⟩
  | @sdk c next callbacks ret mem gs hi _ =>
    rw [hi] at hk
    cases c with
    | connect =>
      obtain ⟨hdial, hnext⟩ := hk
      have hstage := hnext ret
      by_cases hret : ret = oprtOk
      · rw [if_pos hret] at hstage
        subst hret
        exact Or.inr ⟨hdial, hstage, .call .connect :: gs.map .own, rfl, by simp⟩
      · rw [if_neg hret, ← hdial] at hstage
        exact Or.inl ⟨Or.inl hstage, by simp [Ne.symm hret], fun hne => absurd hdial hne⟩
    | loop l => exact Or.inl ⟨hk.2 ret, by simp, by simp⟩
    | disconnect => exact Or.inl ⟨hk.2 ret, by simp, by simp⟩

/-- What the stage of a state says about the run that led to it. -/
structure Dialed (s : State Pc Mem) (h : List (Event ε)) : Prop where
  dialing : d.stage s.pc = .dialing → connectOk ∉ h
  initialised : d.stage s.pc = .initialised → connectOk ∈ h
  settled : Settled h

variable {d}

theorem Dialed.keep (hd : d.Dialed s h) (hstep : step p s i = some (t, es)) :
    d.Dialed t (h ++ es) := by
  rcases d.step_cases hstep with ⟨hleads, hok, hcall⟩ | ⟨hs, ht, fs, rfl, hfs⟩
  · refine ⟨?_, ?_, ?_⟩
    · intro ht
      rw [ht] at hleads
      exact List.not_mem_append (hd.dialing hleads.of_dialing) hok
    · intro ht
      rw [ht] at hleads
      exact List.mem_append_left _ (hd.initialised hleads.of_initialised)
    · by_cases hs : d.stage s.pc = .dialing
      · exact settled_of_not_mem (List.not_mem_append (hd.dialing hs) hok)
      · exact hd.settled.append_quiet hok (hcall hs)
  · rw [← List.append_assoc]
    refine ⟨?_, ?_, ?_⟩
    · intro hdial
      rw [ht] at hdial
      cases hdial
    · intro _
      exact List.mem_append_right _ (List.mem_singleton_self _)
    · exact settled_append_connectOk (List.not_mem_append (hd.dialing hs) hfs)

theorem Dialed.of_start (hs : d.stage s.pc = .dialing) : d.Dialed s [] := by
  refine ⟨fun _ => List.not_mem_nil, ?_, List.Pairwise.nil⟩
  intro hi
  rw [hs] at hi
  cases hi

end Dial
end TuyaDaemon.Daemon
