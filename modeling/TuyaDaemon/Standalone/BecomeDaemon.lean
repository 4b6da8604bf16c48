import TuyaDaemon.PosixSessions

/-!
# become_daemon.c

The double fork, as a program of the processes that take part in it. A process that has
returned to `main` may make any call; what it forks later is none of the daemon's concern.
-/

namespace TuyaDaemon.Standalone

set_option autoImplicit false

open EventMachine Posix

namespace BecomeDaemon

def exitSuccess : Int := 0
def stdinFileno : Int := 0
def stdoutFileno : Int := 1
def stderrFileno : Int := 2

inductive Point where
  | fork
  /-- The parent's branch of either fork. -/
  | exitParent
  | setsid
  | forkAgain
  | umask
  | chdir
  | closefrom
  | openNull
  | dupStdout
  | dupStderr
  | returned (ret : Int)
  | inMain (ret : Int)
  | elsewhere
  deriving DecidableEq, Repr

def devNull : OpenFile := ⟨cstr "/dev/null", .readWrite, false⟩

def call : Point → Option Syscall
  | .fork => some .fork
  | .exitParent => some (.exit exitSuccess)
  | .setsid => some .setsid
  | .forkAgain => some .fork
  | .umask => some (.umask 0)
  | .chdir => some (.chdir (cstr "/"))
  | .closefrom => some (.closefrom 0)
  | .openNull => some (.openFile devNull)
  | .dupStdout => some (.dup 0)
  | .dupStderr => some (.dup 0)
  | .returned _ => none
  | .inMain _ => none
  | .elsewhere => none

def resume : Point → Syscall → Int → Point
  | .fork, _, pid =>
    if pid = -1 then .returned (-1) else if pid = 0 then .setsid else .exitParent
  | .exitParent, _, _ => .exitParent
  | .setsid, _, ret => if ret = -1 then .returned (-2) else .forkAgain
  | .forkAgain, _, pid =>
    if pid = -1 then .returned (-3) else if pid = 0 then .umask else .exitParent
  | .umask, _, _ => .chdir
  | .chdir, _, _ => .closefrom
  | .closefrom, _, _ => .openNull
  | .openNull, _, fd => if fd ≠ stdinFileno then .returned (-4) else .dupStdout
  | .dupStdout, _, fd => if fd ≠ stdoutFileno then .returned (-5) else .dupStderr
  | .dupStderr, _, fd => if fd ≠ stderrFileno then .returned (-6) else .returned 0
  | .returned daemon, c, ret => if c = .fork ∧ ret = 0 then .elsewhere else .inMain daemon
  | .inMain daemon, c, ret => if c = .fork ∧ ret = 0 then .elsewhere else .inMain daemon
  | .elsewhere, _, _ => .elsewhere

end BecomeDaemon

open BecomeDaemon

def becomeDaemon : Posix.Program Point where
  call := BecomeDaemon.call
  resume := BecomeDaemon.resume

namespace BecomeDaemon

/-- The process has returned `ret` to `main`. -/
def Point.AfterReturn (k : Point) (ret : Int) : Prop := k = .returned ret ∨ k = .inMain ret

/-- Neither in `become_daemon`, other than to exit, nor returned from it. -/
def Point.Bystander (k : Point) : Prop := k = .exitParent ∨ k = .elsewhere

/-- `p` is about to call `become_daemon`, and nobody else is in it. -/
def Launching (w : World Point) (p : Pid) (r : Process Point) : Prop :=
  w.At p r .fork ∧ ∀ q s k, q ≠ p → w.At q s k → k.Bystander

/-- What a process has, apart from its ids, is as it was at the call. -/
structure Untouched (r s : Process Point) : Prop where
  files : s.files = r.files
  mask : s.mask = r.mask
  directory : s.directory = r.directory

/-- The descriptors in use are the first `n`, and all of them are `/dev/null`. The directory is
the root or, as nobody looks at the result of `chdir`, still the launcher's. -/
structure Redirected (r : Process Point) (n : Nat) (s : Process Point) : Prop where
  files : s.files = List.replicate n (some devNull)
  mask : s.mask = 0
  directory : s.directory = cstr "/" ∨ s.directory = r.directory

/-- What `become_daemon` returns when `/dev/null` has been opened `n` times. -/
def retAfter (n : Nat) : Int := if n = 3 then 0 else -4 - (n : Int)

/-- The launcher, before its call of `fork` has succeeded. -/
structure Launcher (p : Pid) (r : Process Point) (a : Pid) (s : Process Point) : Prop where
  pid : a = p
  group : s.group = r.group
  session : s.session = r.session
  untouched : Untouched r s

/-- The child of the launcher, as the leader of its session. -/
structure Leader (r : Process Point) (w : World Point) (a : Pid) (s : Process Point) : Prop where
  session : s.session = a
  group : s.group = a
  left : a ≠ r.session
  no_terminal : w.terminal a = none
  orphaned : Orphaned becomeDaemon w s
  untouched : Untouched r s

/-- The child of the second `fork`. -/
structure Detached (r : Process Point) (w : World Point) (a : Pid) (s : Process Point) :
    Prop where
  severed : Severed becomeDaemon w a s.session
  group : s.group = s.session
  left : s.session ≠ r.session
  orphaned : Orphaned becomeDaemon w s

/-- What the return values stand for: the launcher has not got away from where it was, its
child has not got rid of its own session, or `/dev/null` is at the first `n` descriptors only. -/
def Returned (p : Pid) (r : Process Point) (w : World Point) (a : Pid) (s : Process Point)
    (ret : Int) : Prop :=
  ret = -1 ∧ Launcher p r a s ∨ ret = -3 ∧ Leader r w a s ∨
    Detached r w a s ∧ ∃ n ≤ 3, ret = retAfter n ∧ Redirected r n s

/-- What is known of the one process that is in `become_daemon` or has returned. -/
def Facts (p : Pid) (r : Process Point) (w : World Point) (a : Pid) (s : Process Point) :
    Point → Prop
  | .fork => Launcher p r a s
  | .setsid => Unused w a ∧ a ≠ r.session ∧ Orphaned becomeDaemon w s ∧ Untouched r s
  | .forkAgain => Leader r w a s
  | .umask => Detached r w a s ∧ Untouched r s
  | .chdir => Detached r w a s ∧ s.mask = 0 ∧ s.directory = r.directory
  | .closefrom => Detached r w a s ∧ s.mask = 0 ∧
    (s.directory = cstr "/" ∨ s.directory = r.directory)
  | .openNull => Detached r w a s ∧ Redirected r 0 s
  | .dupStdout => Detached r w a s ∧ Redirected r 1 s
  | .dupStderr => Detached r w a s ∧ Redirected r 2 s
  | .returned ret => Returned p r w a s ret
  | .inMain ret => ret = -1 ∨ Orphaned becomeDaemon w s
  | .exitParent => False
  | .elsewhere => False

/-- `a` is that process; the others look on, or have only their exit left. -/
structure Holds (p : Pid) (r : Process Point) (w : World Point) (a : Pid) : Prop where
  active : ∃ s k, w.At a s k ∧ Facts p r w a s k
  others : ∀ q s k, q ≠ a → w.At q s k → k.Bystander

section
variable {isTerminal : CString → Bool} {w w' : World Point} {i : Input}
  {es : List (Posix.Event Point)} {p a : Pid} {r s : Process Point}

theorem Detached.keep (h : Detached r w a s) (t : Transition becomeDaemon isTerminal w i w' es)
    (hne : a ≠ i.subject) (hs : w.processes.lookup a = some s) :
    ∃ x, w'.processes.lookup a = some { s with parent := x } ∧
      Detached r w' a { s with parent := x } := by
  obtain ⟨x, hx, horphaned⟩ := h.orphaned.keep t hne hs
  refine ⟨x, hx, ?_, h.group, h.left, horphaned⟩
  rcases h.severed.keep t (fun _ hi => hne (hi ▸ rfl)) with hended | hsevered
  · exact absurd (t.ended_subject hended) hne
  · exact hsevered

theorem terminal_kept (h : w.terminal a = none)
    (t : Transition becomeDaemon isTerminal w i w' es) (hne : a ≠ i.subject) :
    w'.terminal a = none := by
  cases t with
  | fork hp hk hfresh => exact h
  | setsid hp hk hgroup => exact (Function.update_of_ne hne _ _).trans h
  | setsidRefused hp hk hgroup => exact h
  | setpgid hp hk hjoin => exact h
  | exit hp hk => exact terminate_terminal h
  | reply hp hk hc hserve => exact (acquire_terminal (Or.inl hne)).trans h
  | kill hp => exact terminate_terminal h
  | reap hp hended => exact h

theorem Leader.keep (h : Leader r w a s) (t : Transition becomeDaemon isTerminal w i w' es)
    (hne : a ≠ i.subject) (hs : w.processes.lookup a = some s) :
    ∃ x, w'.processes.lookup a = some { s with parent := x } ∧
      Leader r w' a { s with parent := x } := by
  obtain ⟨x, hx, horphaned⟩ := h.orphaned.keep t hne hs
  exact ⟨x, hx, h.session, h.group, h.left, terminal_kept h.no_terminal t hne, horphaned,
    ⟨h.untouched.files, h.untouched.mask, h.untouched.directory⟩⟩

/-- What is known of a process stays true while others act. -/
theorem Facts.keep {k : Point} (h : Facts p r w a s k)
    (t : Transition becomeDaemon isTerminal w i w' es) (hne : a ≠ i.subject)
    (hs : w.processes.lookup a = some s) :
    ∃ x, w'.processes.lookup a = some { s with parent := x } ∧
      Facts p r w' a { s with parent := x } k := by
  have hframe : ∃ x, w'.processes.lookup a = some { s with parent := x } := by
    obtain ⟨x, hx, _⟩ := t.frame hne hs
    exact ⟨x, hx⟩
  have hlauncher (hl : Launcher p r a s) (x : Pid) : Launcher p r a { s with parent := x } :=
    ⟨hl.pid, hl.group, hl.session, hl.untouched.files, hl.untouched.mask, hl.untouched.directory⟩
  have hdetached {Q : Process Point → Prop} (hQ : ∀ x, Q s → Q { s with parent := x })
      (hd : Detached r w a s ∧ Q s) :
      ∃ x, w'.processes.lookup a = some { s with parent := x } ∧
        Detached r w' a { s with parent := x } ∧ Q { s with parent := x } := by
    obtain ⟨x, hx, hd'⟩ := hd.1.keep t hne hs
    exact ⟨x, hx, hd', hQ x hd.2⟩
  cases k with
  | fork =>
    obtain ⟨x, hx⟩ := hframe
    exact ⟨x, hx, hlauncher h x⟩
  | setsid =>
    obtain ⟨hunused, hleft, horphaned, huntouched⟩ := h
    obtain ⟨x, hx, horphaned'⟩ := horphaned.keep t hne hs
    exact ⟨x, hx, hunused.keep t (Ne.symm hne), hleft, horphaned', huntouched.files,
      huntouched.mask, huntouched.directory⟩
  | forkAgain => exact Leader.keep h t hne hs
  | umask => exact hdetached (fun x hu => ⟨hu.files, hu.mask, hu.directory⟩) h
  | chdir =>
    exact hdetached (Q := fun s => s.mask = 0 ∧ s.directory = r.directory) (fun x hu => hu) h
  | closefrom =>
    exact hdetached (Q := fun s => s.mask = 0 ∧
      (s.directory = cstr "/" ∨ s.directory = r.directory)) (fun x hu => hu) h
  | openNull => exact hdetached (fun x hu => ⟨hu.files, hu.mask, hu.directory⟩) h
  | dupStdout => exact hdetached (fun x hu => ⟨hu.files, hu.mask, hu.directory⟩) h
  | dupStderr => exact hdetached (fun x hu => ⟨hu.files, hu.mask, hu.directory⟩) h
  | returned ret =>
    rcases h with ⟨rfl, hl⟩ | ⟨rfl, hl⟩ | hd
    · obtain ⟨x, hx⟩ := hframe
      exact ⟨x, hx, Or.inl ⟨rfl, hlauncher hl x⟩⟩
    · obtain ⟨x, hx, hl'⟩ := hl.keep t hne hs
      exact ⟨x, hx, Or.inr (Or.inl ⟨rfl, hl'⟩)⟩
    · obtain ⟨x, hx, hd'⟩ := hdetached
        (Q := fun s => ∃ n ≤ 3, ret = retAfter n ∧ Redirected r n s)
        (fun x ⟨n, hn, hret, hu⟩ => ⟨n, hn, hret, hu.files, hu.mask, hu.directory⟩) hd
      exact ⟨x, hx, Or.inr (Or.inr hd')⟩
  | inMain ret =>
    rcases h with rfl | horphaned
    · obtain ⟨x, hx⟩ := hframe
      exact ⟨x, hx, Or.inl rfl⟩
    · obtain ⟨x, hx, horphaned'⟩ := horphaned.keep t hne hs
      exact ⟨x, hx, Or.inr horphaned'⟩
  | exitParent => exact h.elim
  | elsewhere => exact h.elim

theorem Point.Bystander.resume {k : Point} (h : k.Bystander) (c : Syscall) (ret : Int) :
    (becomeDaemon.resume k c ret).Bystander := by
  rcases h with rfl | rfl
  · exact Or.inl rfl
  · exact Or.inr rfl

theorem Holds.keep_others (h : Holds p r w a) (t : Transition becomeDaemon isTerminal w i w' es)
    (hne : a ≠ i.subject) : Holds p r w' a := by
  obtain ⟨s, k, hs, hfacts⟩ := h.active
  obtain ⟨x, hx, hfacts'⟩ := hfacts.keep t hne hs.1
  refine ⟨⟨_, k, ⟨hx, hs.2⟩, hfacts'⟩, ?_⟩
  have hall := t.forall_processes
    (P := fun q s => q ≠ a → ∀ k : Point, s.activity = .running k → k.Bystander)
    (fun _ _ hs => hs) (fun _ _ _ _ _ hl => by cases hl) ?_ ?_ ?_ ?_ ?_
  · exact fun q s k hq hqs => hall q s hqs.1 hq k hqs.2
  · intro s k child hp _ _
    have hk := h.others _ s k (Ne.symm hne) hp
    constructor
    · rintro _ _ ⟨⟩
      exact hk.resume _ _
    · rintro _ _ ⟨⟩
      exact hk.resume _ _
  · rintro s k hp _ _ _ ⟨⟩
    exact (h.others _ s k (Ne.symm hne) hp).resume _ _
  · rintro s k group hp _ _ _ _ ⟨⟩
    exact (h.others _ s k (Ne.symm hne) hp).resume _ _
  · rintro s s' k c ret hp _ _ _ _ _ ⟨⟩
    exact (h.others _ s k (Ne.symm hne) hp).resume _ _
  · exact fun q s hqs hq k hk => h.others q s k hq ⟨hqs, hk⟩

end
end BecomeDaemon
end TuyaDaemon.Standalone
