import TuyaDaemon.Standalone.BecomeDaemon

/-!
# The double fork

One process of the family is in `become_daemon` at any time: a call of `fork` hands over to
the child and leaves the parent with nothing but its exit. `Holds` says so and what is known
of that process; every step of every process keeps it, until the process is lost.
-/

namespace TuyaDaemon.Standalone.BecomeDaemon

set_option autoImplicit false

open EventMachine Posix

section
variable {isTerminal : CString → Bool} {w w' : World Point} {i : Input}
  {es : List (Posix.Event Point)} {p a : Pid} {r s : Process Point}

/-! ## Steps of the process itself -/

/-- A call whose effect is on the caller alone. -/
def IsLocal (c : Syscall) : Prop :=
  c ≠ .fork ∧ c ≠ .setsid ∧ (∀ group, c ≠ .setpgid group) ∧ ∀ status, c ≠ .exit status

theorem serve_of_transition {k : Point} {c : Syscall} {ans : Answer} (hs : w.At a s k)
    (hc : IsLocal c) (t : Transition becomeDaemon isTerminal w (.call a c ans) w' es) :
    ∃ s' ret, s.serve c ans = some (s', ret) ∧ es = [] ∧
      w' = (w.acquire isTerminal a s c ans).set a (s'.at (becomeDaemon.resume k c ret)) := by
  cases t with
  | fork hp hk hfresh => exact absurd rfl hc.1
  | setsid hp hk hgroup => exact absurd rfl hc.2.1
  | setsidRefused hp hk hgroup => exact absurd rfl hc.2.1
  | setpgid hp hk hjoin => exact absurd rfl (hc.2.2.1 _)
  | exit hp hk => exact absurd rfl (hc.2.2.2 _)
  | reply hp hk hne hserve =>
    obtain ⟨rfl, rfl⟩ := hs.unique hp
    exact ⟨_, _, hserve, rfl, rfl⟩

theorem Holds.set {u : World Point} {k l : Point} (h : Holds p r w a) (hs : w.At a s k)
    (hu : u.processes = w.processes) {s' : Process Point}
    (hfacts : Facts p r (u.set a (s'.at l)) a (s'.at l) l) : Holds p r (u.set a (s'.at l)) a := by
  refine ⟨⟨s'.at l, l, ⟨Table.lookup_set_self (hu ▸ hs.1), rfl⟩, hfacts⟩, ?_⟩
  rintro q b m hq ⟨hb, hm⟩
  rw [World.set, Table.lookup_set_ne hq, hu] at hb
  exact h.others q b m hq ⟨hb, hm⟩

theorem Detached.reply {s' : Process Point} {k : Point} {c : Syscall} {ans : Answer}
    (h : Detached r w a s) (t : Transition becomeDaemon isTerminal w (.call a c ans) w' [])
    (hs : w.At a s k) (hk : ¬ becomeDaemon.Exits k) (hc : c ≠ .setsid)
    (hids : s'.parent = s.parent ∧ s'.group = s.group ∧ s'.session = s.session) :
    Detached r w' a s' := by
  obtain ⟨hparent, hgroup, hsession⟩ := hids
  refine ⟨?_, ?_, ?_, ?_⟩
  · rw [hsession]
    rcases h.severed.keep t (fun _ hi => hc (by cases hi; rfl)) with hended | hsevered
    · obtain ⟨_, hended⟩ := hended
      simp at hended
    · exact hsevered
  · rw [hgroup, hsession, h.group]
  · rw [hsession]
    exact h.left
  · have horphaned := h.orphaned.step_self t hs hk
    unfold Orphaned at horphaned ⊢
    rwa [hparent]

/-- A local call after the second `fork`. -/
theorem Holds.advance {k : Point} {c : Syscall} {ans : Answer} (h : Holds p r w a)
    (hs : w.At a s k) (hd : Detached r w a s) (hcall : becomeDaemon.call k = some c)
    (hc : IsLocal c) (t : Transition becomeDaemon isTerminal w (.call a c ans) w' es)
    (hnext : ∀ s' ret, s.serve c ans = some (s', ret) →
      Detached r w' a (s'.at (becomeDaemon.resume k c ret)) →
      Facts p r w' a (s'.at (becomeDaemon.resume k c ret)) (becomeDaemon.resume k c ret)) :
    Holds p r w' a := by
  obtain ⟨s', ret, hserve, rfl, hw⟩ := serve_of_transition hs hc t
  have hk : ¬ becomeDaemon.Exits k := by
    rintro ⟨status, hk⟩
    rw [hcall] at hk
    exact hc.2.2.2 status (Option.some.inj hk)
  obtain ⟨hparent, hgroup, hsession⟩ := serve_ids hserve
  have hfacts := hnext s' ret hserve (hd.reply t hs hk hc.2.1 ⟨hparent, hgroup, hsession⟩)
  subst hw
  exact h.set hs (acquire_processes _ _ _ _) hfacts

/-- Whoever is left only looks on or exits. -/
def Deserted (w : World Point) : Prop := ∀ q s k, w.At q s k → k.Bystander

theorem Holds.terminate {b : Process Point} (h : Holds p r w a) :
    Deserted (w.terminate a b) := by
  rintro q s k ⟨hs, hk⟩
  rw [World.terminate, Table.lookup_map] at hs
  obtain ⟨s', hs', rfl⟩ := Option.map_eq_some_iff.mp hs
  by_cases hq : q = a
  · rw [if_pos hq] at hk
    cases hk
  · apply h.others q s' k hq
    refine ⟨hs', ?_⟩
    rw [if_neg hq] at hk
    split at hk <;> exact hk

/-- The caller of `fork` goes on as its child; what is left of itself is its exit. -/
theorem Holds.forked {child : Pid} {k l : Point} (h : Holds p r w a)
    (hs : w.At a s k) (hfresh : Fresh w child)
    (hfacts : Facts p r (w.fork a s child hfresh .exitParent l) child
      { s with parent := a, activity := .running l } l) :
    Holds p r (w.fork a s child hfresh .exitParent l) child := by
  have hne := (hfresh.ne hs.1).1
  refine ⟨⟨_, l, ⟨lookup_fork_child hne, rfl⟩, hfacts⟩, ?_⟩
  rintro q b l hq ⟨hb, hl⟩
  by_cases hqa : q = a
  · subst hqa
    rw [lookup_fork_self hs.1] at hb
    cases hb
    cases hl
    exact Or.inl rfl
  · rw [lookup_fork_ne hqa hq] at hb
    exact h.others q b l hqa ⟨hb, hl⟩

theorem exits_exitParent : becomeDaemon.Exits .exitParent := ⟨exitSuccess, rfl⟩

/-- In the parent `fork` returns neither -1 nor 0. -/
theorem resume_parent {child : Pid} {k : Point} (hk : k = .fork ∨ k = .forkAgain)
    (h : Fresh w child) : becomeDaemon.resume k .fork child = .exitParent := by
  have hneg : (child : Int) ≠ -1 := by omega
  have hzero : (child : Int) ≠ 0 := Int.natCast_ne_zero.mpr h.1
  rcases hk with rfl | rfl
  · simp only [becomeDaemon, BecomeDaemon.resume, if_neg hneg, if_neg hzero]
  · simp only [becomeDaemon, BecomeDaemon.resume, if_neg hneg, if_neg hzero]

theorem Holds.fork {ans : Answer} (h : Holds p r w a) (hs : w.At a s .fork)
    (hl : Launcher p r a s)
    (t : Transition becomeDaemon isTerminal w (.call a .fork ans) w' es) :
    ∃ b, Holds p r w' b := by
  cases t with
  | @fork _ child _ _ hp hk hfresh =>
    obtain ⟨rfl, rfl⟩ := hp.unique hs
    have t : Transition becomeDaemon isTerminal w _ _ _ := .fork hp hk hfresh
    rw [resume_parent (Or.inl rfl) hfresh] at t ⊢
    have hne := (hfresh.ne hs.1).1
    refine ⟨child, h.forked (l := .setsid) hs hfresh ⟨hfresh.unused.keep t hne, ?_, ?_, ?_⟩⟩
    · rw [← hl.session]
      exact (hfresh.ne hs.1).2.2.symm
    · exact Or.inr ⟨_, _, ⟨lookup_fork_self hs.1, rfl⟩, exits_exitParent⟩
    · exact ⟨hl.untouched.files, hl.untouched.mask, hl.untouched.directory⟩
  | reply hp hk hc hserve =>
    obtain ⟨rfl, rfl⟩ := hp.unique hs
    cases ans with
    | refused =>
      cases hserve
      refine ⟨a, h.set hs (acquire_processes _ _ _ _) (Or.inl ⟨rfl, ?_⟩)⟩
      exact ⟨hl.pid, hl.group, hl.session, hl.untouched.files, hl.untouched.mask,
        hl.untouched.directory⟩
    | _ => cases hserve

/-- The child of the first `fork` does not lead a group, so that `setsid` cannot fail. -/
theorem Holds.setsid {ans : Answer} (h : Holds p r w a) (hs : w.At a s .setsid)
    (hunused : Unused w a) (hleft : a ≠ r.session) (horphaned : Orphaned becomeDaemon w s)
    (huntouched : Untouched r s)
    (t : Transition becomeDaemon isTerminal w (.call a .setsid ans) w' es) :
    Holds p r w' a := by
  cases t with
  | setsid hp hk hgroup =>
    obtain ⟨rfl, rfl⟩ := hp.unique hs
    have t : Transition becomeDaemon isTerminal w _ _ _ := .setsid hp hk hgroup
    have hresume : becomeDaemon.resume .setsid .setsid a = .forkAgain := by
      simp only [becomeDaemon, BecomeDaemon.resume]
      exact if_neg (by omega)
    rw [hresume] at t ⊢
    have hexits : ¬ becomeDaemon.Exits .setsid := by
      rintro ⟨_, hk⟩
      cases hk
    refine ⟨⟨_, .forkAgain, ⟨Table.lookup_set_self hs.1, rfl⟩, ?_⟩, ?_⟩
    · refine ⟨rfl, rfl, hleft, Function.update_self _ _ _, horphaned.step_self t hs hexits, ?_⟩
      exact ⟨huntouched.files, huntouched.mask, huntouched.directory⟩
    · rintro q b l hq ⟨hb, hl⟩
      rw [World.setsid, Table.lookup_set_ne hq] at hb
      exact h.others q b l hq ⟨hb, hl⟩
  | setsidRefused hp hk hgroup =>
    obtain ⟨e, he, heq⟩ := hgroup
    exact absurd heq (hunused e.1 e.2 (Table.lookup_of_mem he)).1
  | reply hp hk hc hserve => exact absurd rfl hc

theorem Holds.forkAgain {ans : Answer} (h : Holds p r w a) (hs : w.At a s .forkAgain)
    (hl : Leader r w a s)
    (t : Transition becomeDaemon isTerminal w (.call a .fork ans) w' es) :
    ∃ b, Holds p r w' b := by
  cases t with
  | @fork _ child _ _ hp hk hfresh =>
    obtain ⟨rfl, rfl⟩ := hp.unique hs
    rw [resume_parent (Or.inr rfl) hfresh]
    have hne := (hfresh.ne hs.1).1
    have hparent : (w.fork a s child hfresh .exitParent .umask).At a (s.at .exitParent)
        .exitParent := ⟨lookup_fork_self hs.1, rfl⟩
    refine ⟨child, h.forked (l := .umask) hs hfresh ⟨⟨?_, ?_, ?_, ?_⟩, ?_⟩⟩
    · rw [show ({ s with parent := a, activity := .running .umask } : Process Point).session = a
        from hl.session]
      refine ⟨hne.symm, ⟨_, _, ⟨lookup_fork_child hne, rfl⟩, hl.session⟩, hl.no_terminal, ?_⟩
      intro b l hb
      obtain ⟨_, rfl⟩ := hparent.unique hb
      exact exits_exitParent
    · exact hl.group.trans hl.session.symm
    · exact fun heq => hl.left (hl.session.symm.trans heq)
    · exact Or.inr ⟨_, _, hparent, exits_exitParent⟩
    · exact ⟨hl.untouched.files, hl.untouched.mask, hl.untouched.directory⟩
  | reply hp hk hc hserve =>
    obtain ⟨rfl, rfl⟩ := hp.unique hs
    have t : Transition becomeDaemon isTerminal w _ _ _ := .reply hp hk hc hserve
    cases ans with
    | refused =>
      cases hserve
      have hexits : ¬ becomeDaemon.Exits .forkAgain := by
        rintro ⟨_, hk⟩
        cases hk
      refine ⟨a, h.set hs (acquire_processes _ _ _ _) (Or.inr (Or.inl ⟨rfl, ?_⟩))⟩
      exact ⟨hl.session, hl.group, hl.left, hl.no_terminal, hl.orphaned.step_self t hs hexits,
        hl.untouched.files, hl.untouched.mask, hl.untouched.directory⟩
    | _ => cases hserve

/-- `open` and `dup` find the descriptors below `n` taken by `/dev/null`, and no others. -/
theorem Redirected.install {n : Nat} {b : Process Point} (h : Redirected r n s)
    (hfiles : b.files = (Posix.install s.files devNull).2) (hmask : b.mask = s.mask)
    (hdirectory : b.directory = s.directory) : Redirected r (n + 1) b := by
  refine ⟨?_, hmask.trans h.mask, hdirectory ▸ h.directory⟩
  rw [hfiles, h.files, install_replicate, List.replicate_succ']

theorem Redirected.activity {n : Nat} (h : Redirected r n s) (k : Point) :
    Redirected r n (s.at k) := ⟨h.files, h.mask, h.directory⟩

/-- The result of `open` or `dup` is the number of descriptors in use. -/
theorem Redirected.returned {n : Nat} (hd : Detached r w' a (s.at (.returned (-4 - n))))
    (hn : n < 3) (h : Redirected r n s) :
    Facts p r w' a (s.at (.returned (-4 - n))) (.returned (-4 - n)) := by
  refine Or.inr (Or.inr ⟨hd, n, Nat.le_of_lt hn, ?_, h.activity _⟩)
  rw [retAfter, if_neg (Nat.ne_of_lt hn)]

theorem Holds.openNull {ans : Answer} (h : Holds p r w a) (hs : w.At a s .openNull)
    (hd : Detached r w a s) (hr : Redirected r 0 s)
    (t : Transition becomeDaemon isTerminal w (.call a (.openFile devNull) ans) w' es) :
    Holds p r w' a := by
  refine h.advance hs hd rfl (by simp [IsLocal]) t ?_
  intro s' ret hserve hd'
  cases ans with
  | done =>
    cases hserve
    have hfd : (Posix.install s.files devNull).1 = 0 := by rw [hr.files, install_replicate]
    simp only [hfd] at hd' ⊢
    exact ⟨hd', hr.install rfl rfl rfl⟩
  | refused =>
    cases hserve
    exact Redirected.returned (n := 0) hd' (by omega) hr
  | child _ => cases hserve

theorem Holds.dup {k next : Point} {n : Nat} {ans : Answer} (h : Holds p r w a)
    (hs : w.At a s k) (hcall : becomeDaemon.call k = some (.dup 0)) (hd : Detached r w a s)
    (hn : 1 ≤ n ∧ n < 3) (hr : Redirected r n s)
    (hdone : becomeDaemon.resume k (.dup 0) n = next)
    (hrefused : becomeDaemon.resume k (.dup 0) (-1) = .returned (-4 - n))
    (hnext : ∀ b : Process Point, Detached r w' a (b.at next) → Redirected r (n + 1) b →
      Facts p r w' a (b.at next) next)
    (t : Transition becomeDaemon isTerminal w (.call a (.dup 0) ans) w' es) :
    Holds p r w' a := by
  refine h.advance hs hd hcall (by simp [IsLocal]) t ?_
  intro s' ret hserve hd'
  cases ans with
  | done =>
    have hfile : s.files[0]?.join = some devNull := by
      rw [hr.files, List.getElem?_replicate_of_lt hn.1, Option.join_some]
    simp only [Process.serve, hfile] at hserve
    obtain ⟨rfl, rfl⟩ := Prod.mk.inj (Option.some.inj hserve)
    have hfd : (Posix.install s.files devNull).1 = n := by rw [hr.files, install_replicate]
    rw [hfd, hdone] at hd' ⊢
    exact hnext _ hd' (hr.install rfl rfl rfl)
  | refused =>
    cases hserve
    rw [hrefused] at hd' ⊢
    exact Redirected.returned hd' hn.2 hr
  | child _ => cases hserve

/-- A step of the process while it is in `become_daemon`. -/
theorem Holds.own_call {k : Point} {c : Syscall} (h : Holds p r w a) (hs : w.At a s k)
    (hfacts : Facts p r w a s k) (hcall : becomeDaemon.call k = some c)
    (t : Transition becomeDaemon isTerminal w i w' es) (ha : i.subject = a) :
    (∃ b, Holds p r w' b) ∨ Deserted w' ∧ es = [.killed a k] := by
  subst ha
  rcases t.call_of_at hs hcall with ⟨ans, hi⟩ | ⟨rfl, rfl⟩
  swap
  · exact Or.inr ⟨h.terminate, rfl⟩
  apply Or.inl
  rw [hi] at t
  cases k with
  | fork =>
    cases hcall
    exact h.fork hs hfacts t
  | setsid =>
    cases hcall
    obtain ⟨hunused, hleft, horphaned, huntouched⟩ := hfacts
    exact ⟨_, h.setsid hs hunused hleft horphaned huntouched t⟩
  | forkAgain =>
    cases hcall
    exact h.forkAgain hs hfacts t
  | umask =>
    cases hcall
    refine ⟨_, h.advance hs hfacts.1 rfl (by simp [IsLocal]) t ?_⟩
    intro s' ret hserve hd'
    cases ans <;> cases hserve
    exact ⟨hd', rfl, hfacts.2.directory⟩
  | chdir =>
    cases hcall
    obtain ⟨hd, hmask, hdirectory⟩ := hfacts
    refine ⟨_, h.advance hs hd rfl (by simp [IsLocal]) t ?_⟩
    intro s' ret hserve hd'
    cases ans <;> cases hserve
    · exact ⟨hd', hmask, Or.inl rfl⟩
    · exact ⟨hd', hmask, Or.inr hdirectory⟩
  | closefrom =>
    cases hcall
    obtain ⟨hd, hmask, hdirectory⟩ := hfacts
    refine ⟨_, h.advance hs hd rfl (by simp [IsLocal]) t ?_⟩
    intro s' ret hserve hd'
    cases ans <;> cases hserve
    exact ⟨hd', rfl, hmask, hdirectory⟩
  | openNull =>
    cases hcall
    exact ⟨_, h.openNull hs hfacts.1 hfacts.2 t⟩
  | dupStdout =>
    cases hcall
    exact ⟨_, h.dup (n := 1) hs rfl hfacts.1 (by omega) hfacts.2 rfl rfl
      (fun b hb hr => ⟨hb, hr.activity _⟩) t⟩
  | dupStderr =>
    cases hcall
    exact ⟨_, h.dup (n := 2) hs rfl hfacts.1 (by omega) hfacts.2 rfl rfl
      (fun b hb hr => Or.inr (Or.inr ⟨hb, 3, by omega, rfl, hr.activity _⟩)) t⟩
  | exitParent => exact hfacts.elim
  | returned ret => cases hcall
  | inMain ret => cases hcall
  | elsewhere => exact hfacts.elim

theorem Returned.orphaned {ret : Int} (h : Returned p r w a s ret) :
    ret = -1 ∨ Orphaned becomeDaemon w s := by
  rcases h with ⟨rfl, _⟩ | ⟨_, hl⟩ | ⟨hd, _⟩
  · exact Or.inl rfl
  · exact Or.inr hl.orphaned
  · exact Or.inr hd.orphaned

theorem Facts.orphaned {k : Point} {ret : Int} (h : Facts p r w a s k)
    (hk : k.AfterReturn ret) : ret = -1 ∨ Orphaned becomeDaemon w s := by
  rcases hk with rfl | rfl
  · exact Returned.orphaned h
  · exact h

theorem Point.AfterReturn.not_exits {k : Point} {ret : Int} (h : k.AfterReturn ret) :
    ¬ becomeDaemon.Exits k := by
  rintro ⟨status, hk⟩
  rcases h with rfl | rfl <;> cases hk

theorem Point.AfterReturn.resume {k : Point} {ret : Int} (h : k.AfterReturn ret) (c : Syscall)
    (v : Int) : becomeDaemon.resume k c v =
      if c = .fork ∧ v = 0 then .elsewhere else .inMain ret := by
  rcases h with rfl | rfl <;> rfl

/-- A step of the process after it has returned: it stays the only one, or it ends. -/
theorem Holds.own_main {k : Point} {ret : Int} (h : Holds p r w a) (hs : w.At a s k)
    (hfacts : Facts p r w a s k) (hk : k.AfterReturn ret)
    (t : Transition becomeDaemon isTerminal w i w' es) (ha : i.subject = a) :
    Holds p r w' a ∧ (∃ b, w'.At a b (.inMain ret)) ∨
      Deserted w' ∧ (es = [.killed a k] ∨ ∃ status, es = [.exited a k status]) := by
  subst ha
  have horphaned : ret = -1 ∨ Orphaned becomeDaemon w' s :=
    (hfacts.orphaned hk).imp_right fun ho => ho.step_self t hs hk.not_exits
  have hset {c : Syscall} {v : Int} (hc : ¬(c = .fork ∧ v = 0)) :
      becomeDaemon.resume k c v = .inMain ret := (hk.resume c v).trans (if_neg hc)
  have hgo {u : World Point} {b : Process Point}
      (hu : u.processes = w.processes.set i.subject (b.at (.inMain ret)))
      (hb : b.parent = s.parent) (ho : ret = -1 ∨ Orphaned becomeDaemon u s) :
      Holds p r u i.subject ∧ ∃ b, u.At i.subject b (.inMain ret) := by
    have hat : u.At i.subject (b.at (.inMain ret)) (.inMain ret) :=
      ⟨by rw [hu, Table.lookup_set_self hs.1], rfl⟩
    refine ⟨⟨⟨_, _, hat, ?_⟩, ?_⟩, _, hat⟩
    · simp only [Facts, Orphaned, Process.at, hb]
      exact ho
    · rintro q s' l hq ⟨hs', hl⟩
      rw [hu, Table.lookup_set_ne hq] at hs'
      exact h.others q s' l hq ⟨hs', hl⟩
  cases t with
  | @fork q child b l hp hmay hfresh =>
    obtain ⟨rfl, rfl⟩ := hp.unique hs
    have hzero : ¬(Syscall.fork = .fork ∧ (child : Int) = 0) :=
      fun hc => hfresh.1 (Int.natCast_eq_zero.mp hc.2)
    rw [hset hzero] at horphaned ⊢
    have hat := lookup_fork_self (h := hfresh) (r := s) (k := .inMain ret)
      (l := becomeDaemon.resume k .fork 0) hp.1
    refine Or.inl ⟨⟨⟨_, _, ⟨hat, rfl⟩, horphaned⟩, ?_⟩, _, hat, rfl⟩
    rintro x b m hx ⟨hb, hm⟩
    have hx : x ≠ q := hx
    by_cases hchild : x = child
    · subst hchild
      rw [lookup_fork_child (hfresh.ne hp.1).1] at hb
      cases hb
      rw [hk.resume, if_pos ⟨rfl, rfl⟩] at hm
      cases hm
      exact Or.inr rfl
    · rw [lookup_fork_ne hx hchild] at hb
      exact h.others x b m hx ⟨hb, hm⟩
  | @setsid q b l hp hmay hgroup =>
    obtain ⟨rfl, rfl⟩ := hp.unique hs
    rw [hset (by simp)] at horphaned ⊢
    exact Or.inl (hgo (b := { s with group := q, session := q }) rfl rfl horphaned)
  | setsidRefused hp hmay hgroup =>
    obtain ⟨rfl, rfl⟩ := hp.unique hs
    rw [hset (by simp)] at horphaned ⊢
    exact Or.inl (hgo rfl rfl horphaned)
  | setpgid hp hmay hjoin =>
    obtain ⟨rfl, rfl⟩ := hp.unique hs
    rw [hset (by simp)] at horphaned ⊢
    exact Or.inl (hgo rfl rfl horphaned)
  | exit hp hmay =>
    obtain ⟨rfl, rfl⟩ := hp.unique hs
    exact Or.inr ⟨h.terminate, Or.inr ⟨_, rfl⟩⟩
  | @reply q b s' l c ans v hp hmay hc hserve =>
    obtain ⟨rfl, rfl⟩ := hp.unique hs
    have hv : ¬(c = .fork ∧ v = 0) := by
      rintro ⟨rfl, rfl⟩
      cases ans <;> cases hserve
    rw [hset hv] at horphaned ⊢
    exact Or.inl (hgo (by rw [World.set, acquire_processes]; rfl) (serve_ids hserve).1 horphaned)
  | kill hp =>
    obtain ⟨rfl, rfl⟩ := hp.unique hs
    exact Or.inr ⟨h.terminate, Or.inl rfl⟩
  | reap hp hended =>
    obtain rfl := Option.some.inj (hp.symm.trans hs.1)
    rw [hs.2] at hended
    cases hended

theorem Launching.holds (h : Launching w p r) : Holds p r w p :=
  ⟨⟨r, .fork, h.1, ⟨rfl, rfl, rfl, rfl, rfl, rfl⟩⟩, h.2⟩

theorem Deserted.keep (h : Deserted w) (t : Transition becomeDaemon isTerminal w i w' es) :
    Deserted w' := by
  have hall := t.forall_processes
    (P := fun _ s => ∀ k : Point, s.activity = .running k → k.Bystander)
    (fun _ _ hs => hs) (fun _ _ _ _ hl => by cases hl) ?_ ?_ ?_ ?_ ?_
  · exact fun q s k hqs => hall q s hqs.1 k hqs.2
  · intro s k child hp _ _
    constructor
    · rintro _ ⟨⟩
      exact (h _ s k hp).resume _ _
    · rintro _ ⟨⟩
      exact (h _ s k hp).resume _ _
  · rintro s k hp _ _ ⟨⟩
    exact (h _ s k hp).resume _ _
  · rintro s k group hp _ _ _ ⟨⟩
    exact (h _ s k hp).resume _ _
  · rintro s s' k c ret hp _ _ _ _ ⟨⟩
    exact (h _ s k hp).resume _ _
  · exact fun q s hqs k hk => h q s k ⟨hqs, hk⟩

/-- The process was killed, or it has ended after its return. -/
def Lost (es : List (Posix.Event Point)) : Prop :=
  ∃ q k, ¬ k.Bystander ∧
    (.killed q k ∈ es ∨ (∃ ret, k.AfterReturn ret) ∧ ∃ status, .exited q k status ∈ es)

theorem Lost.append_left {fs : List (Posix.Event Point)} (h : Lost es) : Lost (es ++ fs) := by
  obtain ⟨q, k, hk, hkilled | ⟨hret, status, hexited⟩⟩ := h
  · exact ⟨q, k, hk, Or.inl (List.mem_append_left _ hkilled)⟩
  · exact ⟨q, k, hk, Or.inr ⟨hret, status, List.mem_append_left _ hexited⟩⟩

theorem Facts.not_bystander {k : Point} (h : Facts p r w a s k) : ¬ k.Bystander := by
  rintro (rfl | rfl)
  · exact h
  · exact h

theorem Holds.step (h : Holds p r w a) (t : Transition becomeDaemon isTerminal w i w' es) :
    (∃ b, Holds p r w' b) ∨ Deserted w' ∧ ∀ fs, Lost (fs ++ es) := by
  by_cases ha : i.subject = a
  · obtain ⟨s, k, hs, hfacts⟩ := h.active
    cases hcall : becomeDaemon.call k with
    | some c =>
      rcases h.own_call hs hfacts hcall t ha with hb | ⟨hw, rfl⟩
      · exact Or.inl hb
      · refine Or.inr ⟨hw, fun fs => ⟨a, k, hfacts.not_bystander, Or.inl ?_⟩⟩
        exact List.mem_append_right _ List.mem_cons_self
    | none =>
      have hk : ∃ ret, k.AfterReturn ret := by
        cases k with
        | returned ret => exact ⟨ret, Or.inl rfl⟩
        | inMain ret => exact ⟨ret, Or.inr rfl⟩
        | elsewhere => exact hfacts.elim
        | _ => cases hcall
      obtain ⟨ret, hret⟩ := hk
      rcases h.own_main hs hfacts hret t ha with ⟨hb, _⟩ | ⟨hw, hes⟩
      · exact Or.inl ⟨a, hb⟩
      · refine Or.inr ⟨hw, fun fs => ⟨a, k, hfacts.not_bystander, ?_⟩⟩
        rcases hes with rfl | ⟨status, rfl⟩
        · exact Or.inl (List.mem_append_right _ List.mem_cons_self)
        · exact Or.inr ⟨⟨ret, hret⟩, status, List.mem_append_right _ List.mem_cons_self⟩
  · exact Or.inl ⟨a, h.keep_others t (Ne.symm ha)⟩

/-! ## Runs -/

theorem exited_of_run {is : List Input} (run : Run (Posix.step becomeDaemon isTerminal) w is es w')
    {q : Pid} {k : Point} {status : Int} (h : .exited q k status ∈ es) :
    becomeDaemon.May k (.exit status) := by
  have hrun := run.history (h := [])
    (P := fun _ h => ∀ q k status, .exited q k status ∈ h → becomeDaemon.May k (.exit status))
    ?_ (by simp)
  · exact hrun q k status h
  · intro v i v' h es hv hstep q k status hmem
    rcases List.mem_append.mp hmem with hmem | hmem
    · exact hv q k status hmem
    · cases transition_of_step hstep with
      | exit hp hmay =>
        obtain ⟨rfl, rfl, rfl⟩ := Event.exited.inj (List.mem_singleton.mp hmem)
        exact hmay
      | _ => simp at hmem

/-- A shell on a terminal has started the program in the foreground. -/
def console : World Point where
  processes := ⟨[(10, ⟨5, 10, 5, List.replicate 3 (some ⟨cstr "/dev/ttyS0", .readWrite, false⟩),
      18, cstr "/root", .running .fork⟩),
    (5, ⟨1, 5, 5, [], 18, cstr "/root", .running .elsewhere⟩),
    (1, ⟨0, 1, 1, [], 0, cstr "/", .running .elsewhere⟩)], by decide⟩
  terminal := fun s => if s = 5 then some (cstr "/dev/ttyS0") else none

/-- The program becomes a daemon; the first parent is waited for early, the second exits late. -/
def toDaemon : List Input :=
  [.call 10 .fork (.child 11), .call 10 (.exit 0) .done, .reap 10, .call 11 .setsid .done,
    .call 11 .fork (.child 12), .call 12 (.umask 0) .done, .call 12 (.chdir (cstr "/")) .refused,
    .call 12 (.closefrom 0) .done, .call 12 (.openFile devNull) .done, .call 12 (.dup 0) .done,
    .call 12 (.dup 0) .done]

theorem launching_console : Launching console 10
    ⟨5, 10, 5, List.replicate 3 (some ⟨cstr "/dev/ttyS0", .readWrite, false⟩), 18, cstr "/root",
      .running .fork⟩ := by
  refine ⟨⟨rfl, rfl⟩, ?_⟩
  rintro q s k hq ⟨hs, hk⟩
  have hmem := Table.mem_of_lookup hs
  simp only [console, List.mem_cons, Prod.mk.injEq, List.not_mem_nil, or_false] at hmem
  rcases hmem with ⟨rfl, _⟩ | ⟨_, rfl⟩ | ⟨_, rfl⟩
  · exact absurd rfl hq
  · cases hk
    exact Or.inr rfl
  · cases hk
    exact Or.inr rfl

/-- The daemon opens a terminal, and the second parent exits. -/
def goesOn : List Input :=
  [.call 12 (.openFile ⟨cstr "/dev/ttyS1", .readWrite, false⟩) .done, .call 11 (.exit 0) .done]

theorem toDaemon_run : ∃ es w s fs v b,
    Run (Posix.step becomeDaemon fun _ => true) console toDaemon es w ∧
    w.At 12 s (.returned 0) ∧ s.parent = 11 ∧
    Run (Posix.step becomeDaemon fun _ => true) w goesOn fs v ∧ v.At 12 b (.inMain 0) := by
  have hrun := @run_of_exec _ _ _ (Posix.step becomeDaemon fun _ => true) console _ toDaemon _ rfl
  exact ⟨_, _, _, _, _, _, hrun, ⟨rfl, rfl⟩, rfl, run_of_exec rfl, ⟨rfl, rfl⟩⟩

section Runs
variable {u : World Point} {is : List Input}
  (hlaunch : Launching w p r) (run : Run (Posix.step becomeDaemon isTerminal) w is es w')
include hlaunch run

theorem holds_of_run : (∃ a, Holds p r w' a) ∨ Deserted w' ∧ Lost es := by
  have hrun := run.history (h := [])
    (P := fun v h => (∃ a, Holds p r v a) ∨ Deserted v ∧ Lost h) ?_ (Or.inl ⟨p, hlaunch.holds⟩)
  · exact hrun
  · rintro v i v' h es hv hstep
    have t := transition_of_step hstep
    rcases hv with ⟨a, ha⟩ | ⟨hv, hlost⟩
    · exact (ha.step t).imp_right fun ⟨hw, hes⟩ => ⟨hw, hes h⟩
    · exact Or.inr ⟨hv.keep t, hlost.append_left⟩

theorem holds_of_active {k : Point} (hs : w'.At a s k) (hk : ¬ k.Bystander) :
    Holds p r w' a ∧ Facts p r w' a s k := by
  rcases holds_of_run hlaunch run with ⟨b, hb⟩ | ⟨hw, _⟩
  · obtain rfl : a = b := by
      by_contra hne
      exact hk (hb.others a s k hne hs)
    obtain ⟨s', k', hs', hfacts⟩ := hb.active
    obtain ⟨rfl, rfl⟩ := hs.unique hs'
    exact ⟨hb, hfacts⟩
  · exact absurd (hw a s k hs) hk

/-- However the processes interleave, but for parents that have only their `_exit` left at
most one is ever in `become_daemon` or back in `main`, there is one unless it was killed or
has ended after its return, and all the others exit with success. -/
theorem one_daemon :
    (∀ a b s s' k l, w'.At a s k → w'.At b s' l → ¬ k.Bystander → ¬ l.Bystander → a = b) ∧
    (Deserted w' → Lost es) ∧
    ∀ q status, .exited q .exitParent status ∈ es → status = exitSuccess := by
  refine ⟨?_, ?_, ?_⟩
  · intro a b s s' k l hs hs' hk hl
    by_contra hne
    obtain ⟨ha, _⟩ := holds_of_active hlaunch run hs hk
    exact hl (ha.others b s' l (Ne.symm hne) hs')
  · intro hw
    rcases holds_of_run hlaunch run with ⟨a, ha⟩ | ⟨_, hlost⟩
    · obtain ⟨s, k, hs, hfacts⟩ := ha.active
      exact absurd (hw a s k hs) hfacts.not_bystander
    · exact hlost
  · intro q status hmem
    rcases exited_of_run run hmem with hnone | hsome
    · cases hnone
    · cases hsome
      rfl

omit hlaunch run in
theorem one_daemon_console : ∃ es w s,
    Run (Posix.step becomeDaemon fun _ => true) console toDaemon es w ∧
    w.At 12 s (.returned 0) ∧ ∀ b s k, w.At b s k → ¬ k.Bystander → b = 12 := by
  obtain ⟨es, w, s, _, _, _, hrun, hs, _⟩ := toDaemon_run
  refine ⟨es, w, s, hrun, hs, fun b s' k hb hk => ?_⟩
  exact (one_daemon launching_console hrun).1 b 12 s' s k _ hb hs hk
    (by rintro (h | h) <;> cases h)

/-- What every return value stands for, and -2 for nothing. -/
theorem returned_of_run {ret : Int} (hs : w'.At a s (.returned ret)) :
    Returned p r w' a s ret ∧ ret ≠ -2 := by
  obtain ⟨_, hfacts⟩ := holds_of_active hlaunch run hs (by rintro (h | h) <;> cases h)
  refine ⟨hfacts, ?_⟩
  rcases hfacts with ⟨rfl, _⟩ | ⟨rfl, _⟩ | ⟨_, n, hn, rfl, _⟩
  · decide
  · decide
  · unfold retAfter
    split <;> omega

omit hlaunch run in
theorem returned_of_run_console : ∃ es w s,
    Run (Posix.step becomeDaemon fun _ => true) console toDaemon es w ∧
    w.At 12 s (.returned 0) ∧ ∃ r, Returned 10 r w 12 s 0 := by
  obtain ⟨es, w, s, _, _, _, hrun, hs, _⟩ := toDaemon_run
  exact ⟨es, w, s, hrun, hs, _, (returned_of_run launching_console hrun hs).1⟩

/-- A process that has returned is the last one: nobody else returns after it, and the parents
that may still be there have only their `_exit` left. -/
theorem return_once {v : World Point} {js : List Input} {fs : List (Posix.Event Point)} {b : Pid}
    {s' : Process Point} {k l : Point} {ret : Int} (hs : w'.At a s k) (hk : k.AfterReturn ret)
    (run' : Run (Posix.step becomeDaemon isTerminal) w' js fs v) (hb : v.At b s' l)
    (hl : ¬ l.Bystander) : b = a ∧ l.AfterReturn ret := by
  have hactive : ¬ k.Bystander := by
    rcases hk with rfl | rfl <;> rintro (h | h) <;> cases h
  have hrun := run'.invariant
    (P := fun v => (Holds p r v a ∧ ∃ s k, v.At a s k ∧ k.AfterReturn ret) ∨ Deserted v) ?_
    (Or.inl ⟨(holds_of_active hlaunch run hs hactive).1, s, k, hs, hk⟩)
  · rcases hrun with ⟨hv, s'', k'', hs'', hk''⟩ | hv
    · obtain rfl : b = a := by
        by_contra hne
        exact hl (hv.others b s' l hne hb)
      obtain ⟨rfl, rfl⟩ := hs''.unique hb
      exact ⟨rfl, hk''⟩
    · exact absurd (hv b s' l hb) hl
  · rintro v i v' es (⟨hv, s, k, hs, hk⟩ | hv) hstep
    · have t := transition_of_step hstep
      by_cases ha : i.subject = a
      · obtain ⟨b, m, hb, hfacts⟩ := hv.active
        obtain ⟨rfl, rfl⟩ := hs.unique hb
        rcases hv.own_main hs hfacts hk t ha with ⟨hv', b, hb⟩ | ⟨hv', _⟩
        · exact Or.inl ⟨hv', b, _, hb, Or.inr rfl⟩
        · exact Or.inr hv'
      · obtain ⟨x, hx, _⟩ := t.frame (Ne.symm ha) hs.1
        exact Or.inl ⟨hv.keep_others t (Ne.symm ha), _, k, ⟨hx, hs.2⟩, hk⟩
    · exact Or.inr (hv.keep (transition_of_step hstep))

omit hlaunch run in
theorem return_once_console : ∃ es w fs v,
    Run (Posix.step becomeDaemon fun _ => true) console toDaemon es w ∧
    Run (Posix.step becomeDaemon fun _ => true) w goesOn fs v ∧
    ∀ b s k, v.At b s k → ¬ k.Bystander → b = 12 ∧ k.AfterReturn 0 := by
  obtain ⟨es, w, s, fs, v, _, hrun, hs, _, hrun', _⟩ := toDaemon_run
  refine ⟨es, w, fs, v, hrun, hrun', fun b s' k hb hk => ?_⟩
  exact return_once launching_console hrun hs (Or.inl rfl) hrun' hb hk

/-- Nothing waits for the parents: the daemon is adopted when they have exited. -/
theorem adopted_of_run {k : Point} {ret : Int} (hs : w'.At a s k) (hk : k.AfterReturn ret)
    (hret : ret ≠ -1) : s.parent = init ∨ ∃ b, w'.At s.parent b .exitParent := by
  have hactive : ¬ k.Bystander := by
    rcases hk with rfl | rfl <;> rintro (h | h) <;> cases h
  obtain ⟨_, hfacts⟩ := holds_of_active hlaunch run hs hactive
  rcases hfacts.orphaned hk with hneg | hinit | ⟨b, l, hb, status, hl⟩
  · exact absurd hneg hret
  · exact Or.inl hinit
  · have hl' : l = .exitParent := by
      cases l <;> cases hl
      rfl
    exact Or.inr ⟨b, hl' ▸ hb⟩

omit hlaunch run in
theorem adopted_of_run_console : ∃ es w s,
    Run (Posix.step becomeDaemon fun _ => true) console toDaemon es w ∧
    w.At 12 s (.returned 0) ∧ ∃ b, w.At 11 b .exitParent := by
  obtain ⟨es, w, s, _, _, _, hrun, hs, hparent, _⟩ := toDaemon_run
  refine ⟨es, w, s, hrun, hs, ?_⟩
  rcases adopted_of_run launching_console hrun hs (Or.inl rfl) (by decide) with hinit | hexits
  · rw [hparent] at hinit
    cases hinit
  · exact hparent ▸ hexits

/-- Once `become_daemon` has returned with anything but -1 and -3, the session is not the
launcher's, has no terminal, and never gets one, whatever the daemon and everybody else does,
but for another `setsid`. -/
theorem no_terminal_again {v : World Point} {js : List Input} {fs : List (Posix.Event Point)}
    {ret : Int} (hs : w'.At a s (.returned ret)) (hret : ret ≠ -1 ∧ ret ≠ -3)
    (run' : Run (Posix.step becomeDaemon isTerminal) w' js fs v)
    (hjs : ∀ ans, .call a .setsid ans ∉ js) :
    Ended a fs ∨ ∃ b k, v.At a b k ∧ b.session = s.session ∧ b.session ≠ r.session ∧
      v.terminal b.session = none := by
  obtain ⟨_, hfacts⟩ := holds_of_active hlaunch run hs (by rintro (h | h) <;> cases h)
  rcases hfacts with ⟨h, _⟩ | ⟨h, _⟩ | ⟨hd, _⟩
  · exact absurd h hret.1
  · exact absurd h hret.2
  · rcases hd.severed.keep_run run' hjs with hended | hsevered
    · exact Or.inl hended
    · obtain ⟨b, k, hb, hsession⟩ := hsevered.member
      refine Or.inr ⟨b, k, hb, hsession, ?_, ?_⟩
      · rw [hsession]
        exact hd.left
      · rw [hsession]
        exact hsevered.no_terminal

omit hlaunch run in
theorem no_terminal_again_console : ∃ es w fs v,
    Run (Posix.step becomeDaemon fun _ => true) console toDaemon es w ∧
    Run (Posix.step becomeDaemon fun _ => true) w goesOn fs v ∧
    (Ended 12 fs ∨ ∃ b k, v.At 12 b k ∧ b.session ≠ 5 ∧ v.terminal b.session = none) := by
  obtain ⟨es, w, s, fs, v, _, hrun, hs, _, hrun', _⟩ := toDaemon_run
  refine ⟨es, w, fs, v, hrun, hrun', ?_⟩
  rcases no_terminal_again launching_console hrun hs (by decide) hrun' (by simp [goesOn]) with
    hended | ⟨b, k, hb, _, hleft, hnone⟩
  · exact Or.inl hended
  · exact Or.inr ⟨b, k, hb, hleft, hnone⟩

end Runs
end

end TuyaDaemon.Standalone.BecomeDaemon
