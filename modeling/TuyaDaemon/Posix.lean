import Mathlib.Data.List.Nodup
import Mathlib.Logic.Function.Basic
import TuyaDaemon.CMemory
import TuyaDaemon.EventMachine

/-!
# POSIX processes

Processes, sessions and descriptors, and the system calls that change them, under every
interleaving of the processes. A program is a set of points: where `call` gives a call the
process makes that one, elsewhere it may make any. What the kernel is free to choose, the
pid of a child or a refusal, is part of the input.
-/

namespace TuyaDaemon.Posix

set_option autoImplicit false

open EventMachine

universe u

abbrev Pid := Nat

/-- Orphans become children of this process. -/
def init : Pid := 1

/-- A finite map from process ids. -/
structure Table (α : Type u) where
  entries : List (Pid × α)
  distinct : (entries.map Prod.fst).Nodup

namespace Table
variable {α : Type u}

def lookup (t : Table α) (p : Pid) : Option α := t.entries.lookup p

def map (f : Pid → α → α) (t : Table α) : Table α where
  entries := t.entries.map fun e => (e.1, f e.1 e.2)
  distinct := by
    rw [List.map_map]
    exact t.distinct

def set (t : Table α) (p : Pid) (a : α) : Table α := t.map fun q b => if q = p then a else b

def insert (t : Table α) (p : Pid) (a : α) (h : p ∉ t.entries.map Prod.fst) : Table α where
  entries := (p, a) :: t.entries
  distinct := List.nodup_cons.mpr ⟨h, t.distinct⟩

def erase (t : Table α) (p : Pid) : Table α where
  entries := t.entries.filter fun e => e.1 != p
  distinct := (List.filter_sublist.map Prod.fst).nodup t.distinct

variable {t : Table α} {p q : Pid} {a b : α}

@[simp] theorem lookup_map (f : Pid → α → α) (t : Table α) (p : Pid) :
    (t.map f).lookup p = (t.lookup p).map (f p) := by
  obtain ⟨entries, distinct⟩ := t
  simp only [lookup, map]
  clear distinct
  induction entries with
  | nil => rfl
  | cons e entries ih =>
    obtain ⟨q, b⟩ := e
    rw [List.map_cons, List.lookup_cons, List.lookup_cons]
    by_cases h : p = q
    · subst h
      simp
    · simp only [beq_false_of_ne h]
      exact ih

theorem lookup_set_self (h : t.lookup p = some b) : (t.set p a).lookup p = some a := by
  simp [set, h]

theorem lookup_set_ne (h : q ≠ p) : (t.set p a).lookup q = t.lookup q := by
  simp [set, h]

theorem lookup_insert_self {h : p ∉ t.entries.map Prod.fst} :
    (t.insert p a h).lookup p = some a := by
  simp [lookup, insert]

theorem lookup_insert_ne {h : p ∉ t.entries.map Prod.fst} (hq : q ≠ p) :
    (t.insert p a h).lookup q = t.lookup q := by
  simp only [lookup, insert, List.lookup_cons, beq_false_of_ne hq]

theorem lookup_erase_self : (t.erase p).lookup p = none := by
  simp only [lookup, erase, List.lookup_eq_none_iff, List.mem_filter]
  rintro e ⟨_, he⟩
  exact bne_comm (a := p) ▸ he

theorem lookup_erase_ne (h : q ≠ p) : (t.erase p).lookup q = t.lookup q := by
  obtain ⟨entries, distinct⟩ := t
  simp only [lookup, erase]
  clear distinct
  induction entries with
  | nil => rfl
  | cons e entries ih =>
    obtain ⟨x, b⟩ := e
    by_cases hx : x = p
    · subst hx
      rw [List.filter_cons_of_neg (by simp), ih, List.lookup_cons, beq_false_of_ne h]
    · rw [List.filter_cons_of_pos (by simpa using hx), List.lookup_cons, List.lookup_cons, ih]

theorem mem_of_lookup (h : t.lookup p = some a) : (p, a) ∈ t.entries := by
  obtain ⟨xs, ys, heq, _⟩ := List.lookup_eq_some_iff.mp h
  simp [heq]

theorem lookup_of_mem (h : (p, a) ∈ t.entries) : t.lookup p = some a := by
  obtain ⟨entries, distinct⟩ := t
  simp only [lookup]
  induction entries with
  | nil => cases h
  | cons e entries ih =>
    obtain ⟨hnot, hdistinct⟩ := List.nodup_cons.mp distinct
    rcases List.mem_cons.mp h with rfl | h
    · exact List.lookup_cons_self
    · have hne : p ≠ e.1 := fun heq => hnot (List.mem_map.mpr ⟨_, h, heq⟩)
      rw [List.lookup_cons, beq_false_of_ne hne]
      exact ih hdistinct h

end Table

inductive Access where
  | readOnly
  | writeOnly
  | readWrite
  deriving DecidableEq, Repr

/-- A path and the flags it was opened with. -/
structure OpenFile where
  path : CString
  access : Access
  noCtty : Bool
  deriving DecidableEq, Repr

abbrev Descriptors := List (Option OpenFile)

/-- The lowest descriptor that is not in use, and the table with `file` there. -/
def install : Descriptors → OpenFile → Nat × Descriptors
  | [], file => (0, [some file])
  | none :: rest, file => (0, some file :: rest)
  | some f :: rest, file =>
    let (fd, rest) := install rest file
    (fd + 1, some f :: rest)

@[simp] theorem install_replicate (n : Nat) (f file : OpenFile) :
    install (List.replicate n (some f)) file =
      (n, List.replicate n (some f) ++ [some file]) := by
  induction n with
  | zero => rfl
  | succ n ih => simp [List.replicate_succ, install, ih]

inductive Activity (κ : Type u) where
  | running (k : κ)
  | ended
  deriving DecidableEq, Repr

structure Process (κ : Type u) where
  parent : Pid
  group : Pid
  session : Pid
  files : Descriptors
  mask : Nat
  directory : CString
  activity : Activity κ
  deriving DecidableEq, Repr

/-- All processes, and the controlling terminals of their sessions. -/
structure World (κ : Type u) where
  processes : Table (Process κ)
  terminal : Pid → Option CString

inductive Syscall where
  | fork
  | setsid
  | setpgid (group : Pid)
  | exit (status : Int)
  | umask (mask : Nat)
  | chdir (path : CString)
  | closefrom (low : Nat)
  | openFile (file : OpenFile)
  | dup (fd : Nat)
  deriving DecidableEq, Repr

inductive Answer where
  | done
  | refused
  | child (pid : Pid)
  deriving DecidableEq, Repr

inductive Input where
  | call (p : Pid) (c : Syscall) (a : Answer)
  | kill (p : Pid)
  | reap (p : Pid)
  deriving DecidableEq, Repr

def Input.subject : Input → Pid
  | call p _ _ => p
  | kill p => p
  | reap p => p

inductive Event (κ : Type u) where
  | exited (p : Pid) (k : κ) (status : Int)
  | killed (p : Pid) (k : κ)
  deriving DecidableEq, Repr

structure Program (κ : Type u) where
  call : κ → Option Syscall
  resume : κ → Syscall → Int → κ

variable {κ : Type u}

def Program.May (prog : Program κ) (k : κ) (c : Syscall) : Prop :=
  prog.call k = none ∨ prog.call k = some c

instance (prog : Program κ) (k : κ) (c : Syscall) : Decidable (prog.May k c) :=
  inferInstanceAs (Decidable (_ ∨ _))

/-- A process id that nothing uses, also not as that of a group or a session. -/
def Fresh (w : World κ) (p : Pid) : Prop :=
  p ≠ 0 ∧ p ∉ w.processes.entries.map Prod.fst ∧
    ∀ e ∈ w.processes.entries, e.2.group ≠ p ∧ e.2.session ≠ p

instance (w : World κ) (p : Pid) : Decidable (Fresh w p) :=
  inferInstanceAs (Decidable (_ ∧ _ ∧ _))

/-- The calls that concern the caller only, with their results. -/
def Process.serve (r : Process κ) : Syscall → Answer → Option (Process κ × Int)
  | .umask mask, .done => some ({ r with mask }, r.mask)
  | .chdir path, .done => some ({ r with directory := path }, 0)
  | .closefrom low, .done => some ({ r with files := r.files.take low }, 0)
  | .openFile file, .done =>
    let (fd, files) := install r.files file
    some ({ r with files }, fd)
  | .dup fd, .done =>
    match r.files[fd]?.join with
    | none => none
    | some file =>
      let (fd, files) := install r.files file
      some ({ r with files }, fd)
  | .fork, .refused => some (r, -1)
  | .setsid, .refused => some (r, -1)
  | .setpgid _, .refused => some (r, -1)
  | .chdir _, .refused => some (r, -1)
  | .openFile _, .refused => some (r, -1)
  | .dup _, .refused => some (r, -1)
  | _, _ => none

def Process.at (r : Process κ) (k : κ) : Process κ := { r with activity := .running k }

namespace World

/-- A session leader without a controlling terminal gets the one that it opens. -/
def acquire (isTerminal : CString → Bool) (w : World κ) (p : Pid) (r : Process κ) :
    Syscall → Answer → World κ
  | .openFile file, .done =>
    if r.session = p ∧ w.terminal p = none ∧ isTerminal file.path = true ∧ file.noCtty = false ∧
        ∀ e ∈ w.processes.entries, w.terminal e.2.session ≠ some file.path then
      { w with terminal := Function.update w.terminal p (some file.path) }
    else w
  | _, _ => w

def set (w : World κ) (p : Pid) (r : Process κ) : World κ :=
  { w with processes := w.processes.set p r }

def fork (w : World κ) (p : Pid) (r : Process κ) (child : Pid) (h : Fresh w child)
    (k kChild : κ) : World κ :=
  { w with
    processes := (w.processes.insert child { r with parent := p, activity := .running kChild }
      h.2.1).set p (r.at k) }

/-- The caller leads a new session, which has no terminal. -/
def setsid (w : World κ) (p : Pid) (r : Process κ) (k : κ) : World κ where
  processes := w.processes.set p { r with group := p, session := p, activity := .running k }
  terminal := Function.update w.terminal p none

def terminate (w : World κ) (p : Pid) (r : Process κ) : World κ where
  processes := w.processes.map fun q s =>
    if q = p then { s with activity := .ended }
    else if s.parent = p then { s with parent := init } else s
  terminal := if r.session = p then Function.update w.terminal p none else w.terminal

end World

/-- A group of this id is in use. -/
def World.HasGroup (w : World κ) (p : Pid) : Prop := ∃ e ∈ w.processes.entries, e.2.group = p

instance (w : World κ) (p : Pid) : Decidable (w.HasGroup p) :=
  inferInstanceAs (Decidable (∃ e ∈ _, _))

/-- The leader of a session stays where it is, and a group does not span sessions. -/
def World.MayJoin (w : World κ) (p : Pid) (r : Process κ) (group : Pid) : Prop :=
  r.session ≠ p ∧ (group = p ∨
    ∃ e ∈ w.processes.entries, e.2.group = group ∧ e.2.session = r.session)

instance (w : World κ) (p : Pid) (r : Process κ) (group : Pid) :
    Decidable (w.MayJoin p r group) :=
  inferInstanceAs (Decidable (_ ∧ (_ ∨ ∃ e ∈ _, _)))

def serve (prog : Program κ) (isTerminal : CString → Bool) (w : World κ) (p : Pid)
    (r : Process κ) (k : κ) : Syscall → Answer → Option (World κ × List (Event κ))
  | .fork, .child child =>
    if h : Fresh w child then
      some (w.fork p r child h (prog.resume k .fork child) (prog.resume k .fork 0), [])
    else none
  | .setsid, .done =>
    if w.HasGroup p then none else some (w.setsid p r (prog.resume k .setsid p), [])
  | .setsid, .refused =>
    if w.HasGroup p then some (w.set p (r.at (prog.resume k .setsid (-1))), []) else none
  | .setpgid group, .done =>
    if w.MayJoin p r group then
      some (w.set p ({ r with group }.at (prog.resume k (.setpgid group) 0)), [])
    else none
  | .exit status, .done => some (w.terminate p r, [.exited p k status])
  | c, a =>
    match r.serve c a with
    | none => none
    | some (s, ret) => some ((w.acquire isTerminal p r c a).set p (s.at (prog.resume k c ret)), [])

def step (prog : Program κ) (isTerminal : CString → Bool) : Step (World κ) Input (Event κ)
  | w, .call p c a =>
    match w.processes.lookup p with
    | none => none
    | some r =>
      match r.activity with
      | .ended => none
      | .running k => if prog.May k c then serve prog isTerminal w p r k c a else none
  | w, .kill p =>
    match w.processes.lookup p with
    | none => none
    | some r =>
      match r.activity with
      | .ended => none
      | .running k => some (w.terminate p r, [.killed p k])
  | w, .reap p =>
    match w.processes.lookup p with
    | none => none
    | some r =>
      match r.activity with
      | .ended => some ({ w with processes := w.processes.erase p }, [])
      | .running _ => none

/-- The process `p` is at the point `k`. -/
def World.At (w : World κ) (p : Pid) (r : Process κ) (k : κ) : Prop :=
  w.processes.lookup p = some r ∧ r.activity = .running k

/-- Everything that one step can do. -/
inductive Transition (prog : Program κ) (isTerminal : CString → Bool) (w : World κ) :
    Input → World κ → List (Event κ) → Prop where
  | fork {p child : Pid} {r : Process κ} {k : κ} (hp : w.At p r k) (hk : prog.May k .fork)
      (h : Fresh w child) :
      Transition prog isTerminal w (.call p .fork (.child child))
        (w.fork p r child h (prog.resume k .fork child) (prog.resume k .fork 0)) []
  | setsid {p : Pid} {r : Process κ} {k : κ} (hp : w.At p r k) (hk : prog.May k .setsid)
      (h : ¬ w.HasGroup p) :
      Transition prog isTerminal w (.call p .setsid .done)
        (w.setsid p r (prog.resume k .setsid p)) []
  | setsidRefused {p : Pid} {r : Process κ} {k : κ} (hp : w.At p r k)
      (hk : prog.May k .setsid) (h : w.HasGroup p) :
      Transition prog isTerminal w (.call p .setsid .refused)
        (w.set p (r.at (prog.resume k .setsid (-1)))) []
  | setpgid {p group : Pid} {r : Process κ} {k : κ} (hp : w.At p r k)
      (hk : prog.May k (.setpgid group)) (h : w.MayJoin p r group) :
      Transition prog isTerminal w (.call p (.setpgid group) .done)
        (w.set p ({ r with group }.at (prog.resume k (.setpgid group) 0))) []
  | exit {p : Pid} {r : Process κ} {k : κ} {status : Int} (hp : w.At p r k)
      (hk : prog.May k (.exit status)) :
      Transition prog isTerminal w (.call p (.exit status) .done) (w.terminate p r)
        [.exited p k status]
  | reply {p : Pid} {r s : Process κ} {k : κ} {c : Syscall} {a : Answer} {ret : Int}
      (hp : w.At p r k) (hk : prog.May k c) (hc : c ≠ .setsid)
      (hserve : r.serve c a = some (s, ret)) :
      Transition prog isTerminal w (.call p c a)
        ((w.acquire isTerminal p r c a).set p (s.at (prog.resume k c ret))) []
  | kill {p : Pid} {r : Process κ} {k : κ} (hp : w.At p r k) :
      Transition prog isTerminal w (.kill p) (w.terminate p r) [.killed p k]
  | reap {p : Pid} {r : Process κ} (hp : w.processes.lookup p = some r)
      (hended : r.activity = .ended) :
      Transition prog isTerminal w (.reap p) { w with processes := w.processes.erase p } []

section
variable {prog : Program κ} {isTerminal : CString → Bool} {w w' : World κ} {i : Input}
  {es : List (Event κ)}

theorem transition_of_serve {p : Pid} {r : Process κ} {k : κ} {c : Syscall} {a : Answer}
    (hp : w.At p r k) (hk : prog.May k c)
    (h : serve prog isTerminal w p r k c a = some (w', es)) :
    Transition prog isTerminal w (.call p c a) w' es := by
  have hreply (hc : c ≠ .setsid) (h : (match r.serve c a with
      | none => none
      | some (s, ret) => some
          ((w.acquire isTerminal p r c a).set p (s.at (prog.resume k c ret)), [])) =
        some (w', es)) : Transition prog isTerminal w (.call p c a) w' es := by
    split at h
    · cases h
    · rename_i s ret hserve
      obtain ⟨rfl, rfl⟩ := Prod.mk.inj (Option.some.inj h)
      exact .reply hp hk hc hserve
  cases c with
  | fork =>
    cases a with
    | child child =>
      simp only [serve] at h
      split at h
      · rename_i hfresh
        obtain ⟨rfl, rfl⟩ := Prod.mk.inj (Option.some.inj h)
        exact .fork hp hk hfresh
      · cases h
    | _ => exact hreply (by simp) h
  | setsid =>
    cases a with
    | done =>
      simp only [serve] at h
      split at h
      · cases h
      · rename_i hgroup
        obtain ⟨rfl, rfl⟩ := Prod.mk.inj (Option.some.inj h)
        exact .setsid hp hk hgroup
    | refused =>
      simp only [serve] at h
      split at h
      · rename_i hgroup
        obtain ⟨rfl, rfl⟩ := Prod.mk.inj (Option.some.inj h)
        exact .setsidRefused hp hk hgroup
      · cases h
    | child _ => cases h
  | setpgid group =>
    cases a with
    | done =>
      simp only [serve] at h
      split at h
      · rename_i hjoin
        obtain ⟨rfl, rfl⟩ := Prod.mk.inj (Option.some.inj h)
        exact .setpgid hp hk hjoin
      · cases h
    | _ => exact hreply (by simp) h
  | exit status =>
    cases a with
    | done =>
      obtain ⟨rfl, rfl⟩ := Prod.mk.inj (Option.some.inj h)
      exact .exit hp hk
    | _ => cases h
  | _ => exact hreply (by simp) h

theorem transition_of_step (h : step prog isTerminal w i = some (w', es)) :
    Transition prog isTerminal w i w' es := by
  cases i with
  | call p c a =>
    simp only [step] at h
    split at h
    · cases h
    · rename_i r hr
      split at h
      · cases h
      · rename_i k hk
        split at h
        · rename_i hmay
          exact transition_of_serve ⟨hr, hk⟩ hmay h
        · cases h
  | kill p =>
    simp only [step] at h
    split at h
    · cases h
    · rename_i r hr
      split at h
      · cases h
      · rename_i k hk
        obtain ⟨rfl, rfl⟩ := Prod.mk.inj (Option.some.inj h)
        exact .kill ⟨hr, hk⟩
  | reap p =>
    simp only [step] at h
    split at h
    · cases h
    · rename_i r hr
      split at h
      · rename_i hk
        obtain ⟨rfl, rfl⟩ := Prod.mk.inj (Option.some.inj h)
        exact .reap hr hk
      · cases h

theorem World.At.unique {p : Pid} {r s : Process κ} {k l : κ} (h : w.At p r k)
    (h' : w.At p s l) : s = r ∧ l = k := by
  obtain rfl := Option.some.inj (h.1.symm.trans h'.1)
  exact ⟨rfl, Activity.running.inj (h'.2.symm.trans h.2)⟩

theorem serve_ids {r s : Process κ} {c : Syscall} {a : Answer} {ret : Int}
    (h : r.serve c a = some (s, ret)) :
    s.parent = r.parent ∧ s.group = r.group ∧ s.session = r.session := by
  unfold Process.serve at h
  split at h
  case h_5 =>
    split at h
    · cases h
    · cases h
      exact ⟨rfl, rfl, rfl⟩
  all_goals
    cases h
  all_goals exact ⟨rfl, rfl, rfl⟩

theorem serve_ne_exit {r s : Process κ} {c : Syscall} {a : Answer} {ret : Int}
    (h : r.serve c a = some (s, ret)) (status : Int) : c ≠ .exit status := by
  rintro rfl
  cases a <;> cases h

theorem Fresh.lookup {p : Pid} (h : Fresh w p) : w.processes.lookup p = none := by
  cases hp : w.processes.lookup p with
  | none => rfl
  | some r => exact absurd (List.mem_map.mpr ⟨_, Table.mem_of_lookup hp, rfl⟩) h.2.1

theorem Fresh.ne {p q : Pid} {r : Process κ} (h : Fresh w p)
    (hq : w.processes.lookup q = some r) : q ≠ p ∧ r.group ≠ p ∧ r.session ≠ p := by
  refine ⟨?_, h.2.2 _ (Table.mem_of_lookup hq)⟩
  rintro rfl
  rw [h.lookup] at hq
  cases hq

section Fork
variable {p q child : Pid} {r s : Process κ} {h : Fresh w child} {k l : κ}

theorem lookup_fork_self (hp : w.processes.lookup p = some s) :
    (w.fork p r child h k l).processes.lookup p = some (r.at k) := by
  have hinsert := (Table.lookup_insert_ne (h := h.2.1)
    (a := { r with parent := p, activity := .running l }) (h.ne hp).1).trans hp
  exact Table.lookup_set_self hinsert

theorem lookup_fork_child (hne : p ≠ child) :
    (w.fork p r child h k l).processes.lookup child =
      some { r with parent := p, activity := .running l } := by
  rw [World.fork, Table.lookup_set_ne hne.symm, Table.lookup_insert_self]

theorem lookup_fork_ne (hq : q ≠ p) (hchild : q ≠ child) :
    (w.fork p r child h k l).processes.lookup q = w.processes.lookup q := by
  rw [World.fork, Table.lookup_set_ne hq, Table.lookup_insert_ne hchild]

end Fork

@[simp] theorem acquire_processes (p : Pid) (r : Process κ) (c : Syscall) (a : Answer) :
    (w.acquire isTerminal p r c a).processes = w.processes := by
  unfold World.acquire
  split
  · split <;> rfl
  · rfl

/-- Only the terminal of a session that the caller leads can change. -/
theorem acquire_terminal {p x : Pid} {r : Process κ} {c : Syscall} {a : Answer}
    (h : x ≠ p ∨ r.session ≠ p) :
    (w.acquire isTerminal p r c a).terminal x = w.terminal x := by
  unfold World.acquire
  split
  · split
    · rename_i hc
      rcases h with h | h
      · exact Function.update_of_ne h _ _
      · exact absurd hc.1 h
    · rfl
  · rfl

/-- What happens to a process while another one acts: when its parent ends, it is adopted. -/
theorem Transition.frame (t : Transition prog isTerminal w i w' es) {q : Pid} {r : Process κ}
    (hne : q ≠ i.subject) (hq : w.processes.lookup q = some r) :
    ∃ x, w'.processes.lookup q = some { r with parent := x } ∧ (x = r.parent ∨ x = init) ∧
      (r.parent = i.subject → es ≠ [] → x = init) := by
  have hset {p : Pid} {s : Process κ} {u : World κ} (hp : q ≠ p) (hu : u.processes = w.processes) :
      ∃ x, (u.set p s).processes.lookup q = some { r with parent := x } ∧
        (x = r.parent ∨ x = init) ∧ (r.parent = p → ([] : List (Event κ)) ≠ [] → x = init) := by
    refine ⟨r.parent, ?_, Or.inl rfl, fun _ h => absurd rfl h⟩
    rw [World.set, Table.lookup_set_ne hp, hu, hq]
  have hend {p : Pid} {s : Process κ} (hp : q ≠ p) :
      ∃ x, (w.terminate p s).processes.lookup q = some { r with parent := x } ∧
        (x = r.parent ∨ x = init) ∧ (r.parent = p → es ≠ [] → x = init) := by
    by_cases hparent : r.parent = p
    · refine ⟨init, ?_, Or.inr rfl, fun _ _ => rfl⟩
      simp [World.terminate, hq, hp, hparent]
    · refine ⟨r.parent, ?_, Or.inl rfl, fun h => absurd h hparent⟩
      simp [World.terminate, hq, hp, hparent]
  cases t with
  | @fork p child s k hp hk h =>
    have hne : q ≠ p := hne
    refine ⟨r.parent, ?_, Or.inl rfl, fun _ h => absurd rfl h⟩
    rw [lookup_fork_ne hne (h.ne hq).1, hq]
  | @setsid p s k hp hk h =>
    have hne : q ≠ p := hne
    refine ⟨r.parent, ?_, Or.inl rfl, fun _ h => absurd rfl h⟩
    rw [World.setsid, Table.lookup_set_ne hne, hq]
  | setsidRefused hp hk h => exact hset hne rfl
  | setpgid hp hk h => exact hset hne rfl
  | exit hp hk => exact hend hne
  | reply hp hk hc hserve => exact hset hne (acquire_processes _ _ _ _)
  | kill hp => exact hend hne
  | @reap p s hp hended =>
    have hne : q ≠ p := hne
    refine ⟨r.parent, ?_, Or.inl rfl, fun _ h => absurd rfl h⟩
    rw [Table.lookup_erase_ne hne, hq]

/-- To keep a property of every process, it is enough that adoption and the end of a process
keep it, and that the caller and its new child have it. -/
theorem Transition.forall_processes {P : Pid → Process κ → Prop}
    (t : Transition prog isTerminal w i w' es)
    (hadopted : ∀ q s, P q s → P q { s with parent := init })
    (hended : ∀ q s, P q s → P q { s with activity := .ended })
    (hfork : ∀ r k child, w.At i.subject r k → prog.May k .fork → Fresh w child →
      P i.subject (r.at (prog.resume k .fork child)) ∧
        P child { r with parent := i.subject, activity := .running (prog.resume k .fork 0) })
    (hsetsid : ∀ r k, w.At i.subject r k → prog.May k .setsid →
      P i.subject { r with
        group := i.subject
        session := i.subject
        activity := .running (prog.resume k .setsid i.subject) })
    (hsetpgid : ∀ r k group, w.At i.subject r k → prog.May k (.setpgid group) →
      w.MayJoin i.subject r group →
      P i.subject ({ r with group }.at (prog.resume k (.setpgid group) 0)))
    (hreply : ∀ (r s : Process κ) k c ret, w.At i.subject r k → prog.May k c →
      (∀ status, c ≠ .exit status) → s.group = r.group ∧ s.session = r.session →
      P i.subject (s.at (prog.resume k c ret)))
    (h : ∀ q s, w.processes.lookup q = some s → P q s) :
    ∀ q s, w'.processes.lookup q = some s → P q s := by
  intro q s hs
  have hset {p : Pid} {r a : Process κ} {u : World κ} (hu : u.processes = w.processes)
      (hp : w.processes.lookup p = some r) (ha : P p a)
      (hs : (u.processes.set p a).lookup q = some s) : P q s := by
    rw [hu] at hs
    by_cases hq : q = p
    · subst hq
      rw [Table.lookup_set_self hp] at hs
      exact Option.some.inj hs ▸ ha
    · rw [Table.lookup_set_ne hq] at hs
      exact h q s hs
  have hend {p : Pid} {r : Process κ} (hs : (w.terminate p r).processes.lookup q = some s) :
      P q s := by
    rw [World.terminate, Table.lookup_map] at hs
    obtain ⟨b, hb, rfl⟩ := Option.map_eq_some_iff.mp hs
    by_cases hq : q = p
    · rw [if_pos hq]
      exact hended q b (h q b hb)
    · rw [if_neg hq]
      split
      · exact hadopted q b (h q b hb)
      · exact h q b hb
  cases t with
  | @fork p child r k hp hk hfresh =>
    obtain ⟨hcaller, hchild⟩ := hfork r k child hp hk hfresh
    have hpc := (hfresh.ne hp.1).1
    by_cases hq : q = p
    · subst hq
      rw [lookup_fork_self hp.1] at hs
      exact Option.some.inj hs ▸ hcaller
    · by_cases hqc : q = child
      · subst hqc
        rw [lookup_fork_child hpc] at hs
        exact Option.some.inj hs ▸ hchild
      · rw [lookup_fork_ne hq hqc] at hs
        exact h q s hs
  | setsid hp hk hgroup => exact hset rfl hp.1 (hsetsid _ _ hp hk) hs
  | setsidRefused hp hk hgroup =>
    exact hset rfl hp.1 (hreply _ _ _ _ _ hp hk (by simp) ⟨rfl, rfl⟩) hs
  | setpgid hp hk hjoin => exact hset rfl hp.1 (hsetpgid _ _ _ hp hk hjoin) hs
  | exit hp hk => exact hend hs
  | reply hp hk hc hserve =>
    exact hset (acquire_processes _ _ _ _) hp.1
      (hreply _ _ _ _ _ hp hk (serve_ne_exit hserve) (serve_ids hserve).2) hs
  | kill hp => exact hend hs
  | @reap p r hp hactivity =>
    by_cases hq : q = p
    · subst hq
      rw [Table.lookup_erase_self] at hs
      cases hs
    · rw [Table.lookup_erase_ne hq] at hs
      exact h q s hs

end
end TuyaDaemon.Posix
