import TuyaDaemon.Posix

/-!
# What a process keeps while the others run

Who adopts an orphan, when a process id can become that of a group, and how a session ends up
without a terminal for good.
-/

namespace TuyaDaemon.Posix

set_option autoImplicit false

open EventMachine

universe u
variable {κ : Type u}

section
variable {prog : Program κ} {isTerminal : CString → Bool} {w w' : World κ} {i : Input}
  {es : List (Event κ)}

/-- The next thing that the point does is to exit. -/
def Program.Exits (prog : Program κ) (k : κ) : Prop := ∃ status, prog.call k = some (.exit status)

theorem Program.Exits.not_may {k : κ} {c : Syscall} (h : prog.Exits k)
    (hc : ∀ status, c ≠ .exit status) : ¬ prog.May k c := by
  obtain ⟨status, hk⟩ := h
  rintro (hnone | hsome)
  · rw [hk] at hnone
    cases hnone
  · rw [hk] at hsome
    exact hc status (Option.some.inj hsome).symm

/-- No group and no session has this id. -/
def Unused (w : World κ) (x : Pid) : Prop :=
  ∀ q r, w.processes.lookup q = some r → r.group ≠ x ∧ r.session ≠ x

/-- Only the process itself can make its id that of a group. -/
theorem Unused.keep {x : Pid} (h : Unused w x) (t : Transition prog isTerminal w i w' es)
    (hne : i.subject ≠ x) : Unused w' x := by
  apply t.forall_processes (P := fun _ r => r.group ≠ x ∧ r.session ≠ x)
  · exact fun _ _ hs => hs
  · exact fun _ _ hs => hs
  · intro r k child hp _ _
    exact ⟨h _ r hp.1, h _ r hp.1⟩
  · exact fun _ _ _ _ => ⟨hne, hne⟩
  · intro r k group hp _ hjoin
    refine ⟨?_, (h _ r hp.1).2⟩
    rcases hjoin.2 with rfl | ⟨e, he, rfl, _⟩
    · exact hne
    · exact (h e.1 e.2 (Table.lookup_of_mem he)).1
  · rintro r s k c ret hp _ _ ⟨hgroup, hsession⟩
    have hr := h _ r hp.1
    exact ⟨hgroup ▸ hr.1, hsession ▸ hr.2⟩
  · exact h

theorem Fresh.unused {x : Pid} (h : Fresh w x) : Unused w x := fun _ _ hq => (h.ne hq).2

/-- The parent is `init` or about to exit. -/
def Orphaned (prog : Program κ) (w : World κ) (r : Process κ) : Prop :=
  r.parent = init ∨ ∃ s k, w.At r.parent s k ∧ prog.Exits k

/-- A process at such a point does nothing but end. -/
theorem Transition.ends (t : Transition prog isTerminal w i w' es) {r : Process κ} {k : κ}
    (hp : w.At i.subject r k) (hk : prog.Exits k) :
    w' = w.terminate i.subject r ∧ (es = [.killed i.subject k] ∨
      ∃ status, prog.call k = some (.exit status) ∧ es = [.exited i.subject k status]) := by
  have hother {s : Process κ} {k' : κ} {c : Syscall} (hs : w.At i.subject s k')
      (hmay : prog.May k' c) (hc : ∀ status, c ≠ .exit status) : False :=
    ((hp.unique hs).2 ▸ hk).not_may hc hmay
  cases t with
  | fork hs hmay _ => exact (hother hs hmay (by simp)).elim
  | setsid hs hmay _ => exact (hother hs hmay (by simp)).elim
  | setsidRefused hs hmay _ => exact (hother hs hmay (by simp)).elim
  | setpgid hs hmay _ => exact (hother hs hmay (by simp)).elim
  | @exit p s k' status hs hmay =>
    obtain ⟨rfl, rfl⟩ := hp.unique hs
    refine ⟨rfl, Or.inr ⟨status, ?_, rfl⟩⟩
    rcases hmay with hnone | hsome
    · obtain ⟨n, hn⟩ := hk
      rw [hn] at hnone
      cases hnone
    · exact hsome
  | @reply p s s' k' c a ret hs hmay _ hserve =>
    exact (hother hs hmay (serve_ne_exit hserve)).elim
  | kill hs =>
    obtain ⟨rfl, rfl⟩ := hp.unique hs
    exact ⟨rfl, Or.inl rfl⟩
  | reap hs hended =>
    obtain rfl := Option.some.inj (hs.symm.trans hp.1)
    rw [hp.2] at hended
    cases hended

theorem Orphaned.step {r : Process κ} (h : Orphaned prog w r)
    (t : Transition prog isTerminal w i w' es) (hne : r.parent ≠ i.subject) :
    Orphaned prog w' r := by
  rcases h with hinit | ⟨s, k, hs, hk⟩
  · exact Or.inl hinit
  · obtain ⟨y, hy, _⟩ := t.frame hne hs.1
    exact Or.inr ⟨_, k, ⟨hy, hs.2⟩, hk⟩

/-- The process itself acts. -/
theorem Orphaned.step_self {r : Process κ} {k : κ} (h : Orphaned prog w r)
    (t : Transition prog isTerminal w i w' es) (hr : w.At i.subject r k) (hk : ¬ prog.Exits k) :
    Orphaned prog w' r := by
  by_cases hne : r.parent = i.subject
  · rcases h with hinit | ⟨s, l, hs, hl⟩
    · exact Or.inl hinit
    · exact absurd ((hr.unique (hne ▸ hs)).2 ▸ hl) hk
  · exact h.step t hne

theorem Orphaned.keep {q : Pid} {r : Process κ} (h : Orphaned prog w r)
    (t : Transition prog isTerminal w i w' es) (hne : q ≠ i.subject)
    (hq : w.processes.lookup q = some r) :
    ∃ x, w'.processes.lookup q = some { r with parent := x } ∧
      Orphaned prog w' { r with parent := x } := by
  obtain ⟨x, hx, hparent, hadopted⟩ := t.frame hne hq
  refine ⟨x, hx, ?_⟩
  rcases hparent with rfl | rfl
  · by_cases hsubject : r.parent = i.subject
    · rcases h with hinit | ⟨s, k, hs, hk⟩
      · exact Or.inl hinit
      · obtain ⟨_, hes⟩ := t.ends (hsubject ▸ hs) hk
        apply Or.inl
        apply hadopted hsubject
        rcases hes with rfl | ⟨_, _, rfl⟩ <;> simp
    · exact h.step t hsubject
  · exact Or.inl rfl

theorem terminate_terminal {p x : Pid} {r : Process κ} (h : w.terminal x = none) :
    (w.terminate p r).terminal x = none := by
  simp only [World.terminate]
  split
  · rw [Function.update_apply, h, ite_self]
  · exact h

/-- The process has ended. -/
def Ended (p : Pid) (es : List (Event κ)) : Prop :=
  ∃ k, .killed p k ∈ es ∨ ∃ status, .exited p k status ∈ es

theorem Ended.mono {p : Pid} {es fs : List (Event κ)} (h : Ended p es)
    (hsub : ∀ e ∈ es, e ∈ fs) : Ended p fs := by
  obtain ⟨k, hkilled | ⟨status, hexited⟩⟩ := h
  · exact ⟨k, Or.inl (hsub _ hkilled)⟩
  · exact ⟨k, Or.inr ⟨status, hsub _ hexited⟩⟩

/-- `d` is in a session that has no terminal, and whose leader will not get one. -/
structure Severed (prog : Program κ) (w : World κ) (d x : Pid) : Prop where
  follower : d ≠ x
  member : ∃ r k, w.At d r k ∧ r.session = x
  no_terminal : w.terminal x = none
  leader_exits : ∀ r k, w.At x r k → prog.Exits k

theorem Transition.ended_subject (t : Transition prog isTerminal w i w' es) {p : Pid}
    (h : Ended p es) : p = i.subject := by
  obtain ⟨k, h⟩ := h
  cases t with
  | exit hp hmay =>
    rcases h with h | ⟨status, h⟩
    · simp at h
    · simp only [List.mem_singleton, Event.exited.injEq] at h
      exact h.1
  | kill hp =>
    rcases h with h | ⟨status, h⟩
    · simp only [List.mem_singleton, Event.killed.injEq] at h
      exact h.1
    · simp at h
  | _ => simp at h

/-- The step of a process at a point with a call: it makes that call, or is killed. -/
theorem Transition.call_of_at (t : Transition prog isTerminal w i w' es) {r : Process κ} {k : κ}
    {c : Syscall} (hp : w.At i.subject r k) (hk : prog.call k = some c) :
    (∃ a, i = .call i.subject c a) ∨
      w' = w.terminate i.subject r ∧ es = [.killed i.subject k] := by
  have hsame {s : Process κ} {l : κ} {c' : Syscall} (hs : w.At i.subject s l)
      (hmay : prog.May l c') : c' = c := by
    obtain ⟨rfl, rfl⟩ := hp.unique hs
    rcases hmay with hnone | hsome
    · rw [hk] at hnone
      cases hnone
    · exact Option.some.inj (hsome.symm.trans hk)
  cases t with
  | fork hs hmay _ => exact Or.inl ⟨_, by rw [← hsame hs hmay]; rfl⟩
  | setsid hs hmay _ => exact Or.inl ⟨_, by rw [← hsame hs hmay]; rfl⟩
  | setsidRefused hs hmay _ => exact Or.inl ⟨_, by rw [← hsame hs hmay]; rfl⟩
  | setpgid hs hmay _ => exact Or.inl ⟨_, by rw [← hsame hs hmay]; rfl⟩
  | exit hs hmay => exact Or.inl ⟨_, by rw [← hsame hs hmay]; rfl⟩
  | reply hs hmay _ _ => exact Or.inl ⟨_, by rw [← hsame hs hmay]; rfl⟩
  | kill hs =>
    obtain ⟨rfl, rfl⟩ := hp.unique hs
    exact Or.inr ⟨rfl, rfl⟩
  | reap hs hended =>
    obtain rfl := Option.some.inj (hs.symm.trans hp.1)
    rw [hp.2] at hended
    cases hended

/-- A process stays in its session until it ends or calls `setsid`. -/
theorem Transition.session_kept (t : Transition prog isTerminal w i w' es) {d : Pid}
    {r : Process κ} {k : κ} (hd : w.At d r k) (hi : ∀ a, i ≠ .call d .setsid a) :
    Ended d es ∨ ∃ s l, w'.At d s l ∧ s.session = r.session := by
  by_cases hne : d = i.subject
  · have hset {u : World κ} {s : Process κ} {l : κ} (hu : u.processes = w.processes)
        (hs : s.session = r.session) :
        Ended d es ∨ ∃ s' l', (u.set d (s.at l)).At d s' l' ∧ s'.session = r.session := by
      refine Or.inr ⟨s.at l, l, ⟨?_, rfl⟩, hs⟩
      rw [World.set, Table.lookup_set_self (hu ▸ hd.1)]
    subst hne
    cases t with
    | @fork p child s l hs hmay hfresh =>
      obtain ⟨rfl, rfl⟩ := hd.unique hs
      exact Or.inr ⟨_, _, ⟨lookup_fork_self hs.1, rfl⟩, rfl⟩
    | setsid hs hmay hgroup => exact absurd rfl (hi _)
    | setsidRefused hs hmay hgroup => exact absurd rfl (hi _)
    | setpgid hs hmay hjoin =>
      obtain ⟨rfl, rfl⟩ := hd.unique hs
      exact hset rfl rfl
    | exit hs hmay => exact Or.inl ⟨_, Or.inr ⟨_, List.mem_cons_self⟩⟩
    | reply hs hmay hc hserve =>
      obtain ⟨rfl, rfl⟩ := hd.unique hs
      exact hset (acquire_processes _ _ _ _) (serve_ids hserve).2.2
    | kill hs => exact Or.inl ⟨_, Or.inl List.mem_cons_self⟩
    | reap hs hended =>
      obtain rfl := Option.some.inj (hs.symm.trans hd.1)
      rw [hd.2] at hended
      cases hended
  · obtain ⟨x, hx, _⟩ := t.frame hne hd.1
    exact Or.inr ⟨_, k, ⟨hx, hd.2⟩, rfl⟩

theorem Severed.keep {d x : Pid} (h : Severed prog w d x)
    (t : Transition prog isTerminal w i w' es) (hi : ∀ a, i ≠ .call d .setsid a) :
    Ended d es ∨ Severed prog w' d x := by
  obtain ⟨r, k, hd, hsession⟩ := h.member
  rcases t.session_kept hd hi with hended | ⟨s, l, hs, hkept⟩
  · exact Or.inl hended
  refine Or.inr ⟨h.follower, ⟨s, l, hs, hkept.trans hsession⟩, ?_, ?_⟩
  · cases t with
    | fork hp hmay hfresh => exact h.no_terminal
    | setsid hp hmay hgroup =>
      simp only [World.setsid]
      rw [Function.update_apply, h.no_terminal, ite_self]
    | setsidRefused hp hmay hgroup => exact h.no_terminal
    | setpgid hp hmay hjoin => exact h.no_terminal
    | exit hp hmay => exact terminate_terminal h.no_terminal
    | @reply p r s k c a ret hp hmay hc hserve =>
      by_cases hpx : p = x
      · subst hpx
        exact ((h.leader_exits r k hp).not_may (serve_ne_exit hserve) hmay).elim
      · exact (acquire_terminal (Or.inl (Ne.symm hpx))).trans h.no_terminal
    | kill hp => exact terminate_terminal h.no_terminal
    | reap hp hended => exact h.no_terminal
  · have hother {s : Process κ} {l : κ} {c : Syscall} (hc : ∀ status, c ≠ .exit status)
        (hp : w.At i.subject s l) (hmay : prog.May l c) : i.subject ≠ x := by
      rintro rfl
      exact (h.leader_exits s l hp).not_may hc hmay
    have hall := t.forall_processes
      (P := fun q s => q = x → ∀ l, s.activity = .running l → prog.Exits l)
      (fun _ _ hs => hs) (fun _ _ _ _ _ hl => by cases hl) ?_ ?_ ?_ ?_ ?_
    · exact fun s l hs => hall x s hs.1 rfl l hs.2
    · intro s l child hp hmay hfresh
      refine ⟨fun hx => absurd hx (hother (by simp) hp hmay), ?_⟩
      rintro rfl
      exact absurd hsession (hfresh.ne hd.1).2.2
    · exact fun s l hp hmay hx => absurd hx (hother (by simp) hp hmay)
    · exact fun s l group hp hmay _ hx => absurd hx (hother (by simp) hp hmay)
    · exact fun r s l c ret hp hmay hc _ hx => absurd hx (hother hc hp hmay)
    · rintro q s hs rfl l hl
      exact h.leader_exits s l ⟨hs, hl⟩

/-- As long as `d` lives and does not call `setsid`, its session has no terminal, whatever
it and all the other processes do. -/
theorem Severed.keep_run {d x : Pid} {is : List Input} (h : Severed prog w d x)
    (run : Run (step prog isTerminal) w is es w') (his : ∀ a, .call d .setsid a ∉ is) :
    Ended d es ∨ Severed prog w' d x := by
  induction run with
  | nil => exact Or.inr h
  | @cons w v w' i is es fs hstep _ ih =>
    have hi : ∀ a, i ≠ .call d .setsid a := fun a heq => his a (heq ▸ List.mem_cons_self)
    rcases h.keep (transition_of_step hstep) hi with hended | hv
    · exact Or.inl (hended.mono fun e he => List.mem_append_left _ he)
    · rcases ih hv fun a hmem => his a (List.mem_cons_of_mem _ hmem) with hended | hw
      · exact Or.inl (hended.mono fun e he => List.mem_append_right _ he)
      · exact Or.inr hw

end
end TuyaDaemon.Posix
