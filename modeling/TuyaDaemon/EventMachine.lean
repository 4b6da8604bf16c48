import Mathlib.Algebra.Group.Basic
import Mathlib.Data.List.Basic

/-!
# Machines that emit events

`step s i = some (t, es)` says that the input `i` takes the machine from `s` to
`t` and that the events `es` happen on the way; `none` says that `i` is not
enabled in `s`. The rules below turn what one step does into what every finite
run does. Nothing in this module is about a particular program.
-/

namespace TuyaDaemon.EventMachine

set_option autoImplicit false

universe u v w
variable {σ : Type u} {ι : Type v} {ε : Type w}

abbrev Step (σ : Type u) (ι : Type v) (ε : Type w) := σ → ι → Option (σ × List ε)

/-- Finite runs, with the inputs that were taken and the events that happened. -/
inductive Run (step : Step σ ι ε) : σ → List ι → List ε → σ → Prop where
  | nil (s : σ) : Run step s [] [] s
  | cons {s t u : σ} {i : ι} {is : List ι} {es fs : List ε} :
      step s i = some (t, es) → Run step t is fs u → Run step s (i :: is) (es ++ fs) u

def exec (step : Step σ ι ε) : σ → List ι → Option (σ × List ε)
  | s, [] => some (s, [])
  | s, i :: is =>
    match step s i with
    | none => none
    | some (t, es) =>
      match exec step t is with
      | none => none
      | some (u, fs) => some (u, es ++ fs)

/-- Before every `e` something has happened that satisfies `φ`. -/
def Precedes (φ : List ε → Prop) (e : ε) (es : List ε) : Prop :=
  ∀ xs ys, es = xs ++ e :: ys → φ xs

theorem Precedes.append {φ : List ε → Prop} {e : ε} {es fs : List ε} (h : Precedes φ e es)
    (hfs : ∀ xs ys, fs = xs ++ e :: ys → φ (es ++ xs)) : Precedes φ e (es ++ fs) := by
  intro xs ys heq
  rcases List.append_eq_append_iff.mp heq with ⟨as, rfl, hrest⟩ | ⟨bs, rfl, hrest⟩
  · exact hfs as ys hrest
  · rcases bs with _ | ⟨b, bs⟩
    · have hnew := hfs [] ys hrest.symm
      simpa only [List.append_nil] using hnew
    · obtain ⟨rfl, _⟩ := List.cons.inj hrest
      exact h xs bs rfl

theorem Precedes.of_getLast {φ : List ε → Prop} {e : ε} {es : List ε} (h : Precedes φ e es)
    (hlast : es.getLast? = some e) : φ es.dropLast := by
  obtain ⟨xs, rfl⟩ := List.getLast?_eq_some_iff.mp hlast
  rw [List.dropLast_concat]
  exact h xs [] rfl

theorem Precedes.cons {φ : List ε → Prop} {e a : ε} {es : List ε} (ha : a ≠ e)
    (h : Precedes (fun xs => φ (a :: xs)) e es) : Precedes φ e (a :: es) := by
  intro xs ys heq
  cases xs with
  | nil => exact absurd (List.cons.inj heq).1 ha
  | cons x xs =>
    obtain ⟨rfl, hrest⟩ := List.cons.inj heq
    exact h xs ys hrest

theorem Precedes.of_not_mem {φ : List ε → Prop} {e : ε} {es : List ε} (h : e ∉ es) :
    Precedes φ e es := by
  rintro xs ys rfl
  exact absurd (List.mem_append_right xs List.mem_cons_self) h

/-- What precedes among the selected events precedes among all. -/
theorem Precedes.of_filter {p acquire : ε → Bool} {e : ε} {es : List ε} (he : p e = true)
    (h : Precedes (fun xs => ∃ a ∈ xs, acquire a = true) e (es.filter p)) :
    Precedes (fun xs => ∃ a ∈ xs, acquire a = true) e es := by
  rintro xs ys rfl
  rw [List.filter_append, List.filter_cons_of_pos he] at h
  obtain ⟨a, ha, hacquire⟩ := h _ _ rfl
  exact ⟨a, List.mem_of_mem_filter ha, hacquire⟩

/-- At no time more was released than acquired, and in the end it is the same. -/
structure Balanced (acquire release : ε → Bool) (es : List ε) : Prop where
  never_ahead : ∀ xs, xs <+: es → xs.countP release ≤ xs.countP acquire
  settled : es.countP release = es.countP acquire

/-- One release is in balance with the acquisition before it. -/
theorem Balanced.of_once {acquire release : ε → Bool} {es : List ε}
    (hsettled : es.countP release = es.countP acquire) (honce : es.countP release ≤ 1)
    (hafter : ∀ e, release e = true → Precedes (fun xs => ∃ a ∈ xs, acquire a = true) e es) :
    Balanced acquire release es := by
  refine ⟨fun xs hxs => ?_, hsettled⟩
  have hle : xs.countP release ≤ 1 := Nat.le_trans hxs.sublist.countP_le honce
  by_cases hnone : xs.countP release = 0
  · rw [hnone]
    exact Nat.zero_le _
  · obtain ⟨e, he, hrelease⟩ := List.countP_pos_iff.mp (Nat.pos_of_ne_zero hnone)
    obtain ⟨as, bs, rfl⟩ := List.append_of_mem he
    obtain ⟨cs, rfl⟩ := hxs
    obtain ⟨a, ha, hacquire⟩ := hafter e hrelease as (bs ++ cs) (by simp)
    have hpos : 0 < (as ++ e :: bs).countP acquire :=
      List.countP_pos_iff.mpr ⟨a, List.mem_append_left _ ha, hacquire⟩
    omega

theorem Precedes.of_getElem? {φ : List ε → Prop} {e : ε} {es : List ε} (h : Precedes φ e es)
    (n : Nat) (hn : es[n]? = some e) : φ (es.take n) := by
  obtain ⟨hlt, rfl⟩ := List.getElem?_eq_some_iff.mp hn
  apply h _ (es.drop (n + 1))
  rw [List.getElem_cons_drop, List.take_append_drop]

theorem exec_append {step : Step σ ι ε} {s t u : σ} {is js : List ι} {es fs : List ε}
    (h : exec step s is = some (t, es)) (h' : exec step t js = some (u, fs)) :
    exec step s (is ++ js) = some (u, es ++ fs) := by
  induction is generalizing s es with
  | nil =>
    obtain ⟨rfl, rfl⟩ := Prod.mk.inj (Option.some.inj h)
    exact h'
  | cons i is ih =>
    simp only [exec] at h
    split at h
    · cases h
    · rename_i m gs hstep
      split at h
      · cases h
      · rename_i hrest
        obtain ⟨rfl, rfl⟩ := Prod.mk.inj (Option.some.inj h)
        simp only [List.cons_append, exec, hstep, ih hrest, List.append_assoc]

/-- Inputs that are enabled in every state can be taken one after the other. -/
theorem exec_total {step : Step σ ι ε} {q : ι → Prop}
    (enabled : ∀ s i, q i → ∃ t es, step s i = some (t, es)) {is : List ι} (h : ∀ i ∈ is, q i)
    (s : σ) : ∃ t es, exec step s is = some (t, es) := by
  induction is generalizing s with
  | nil => exact ⟨s, [], rfl⟩
  | cons i is ih =>
    obtain ⟨t, es, hstep⟩ := enabled s i (h i List.mem_cons_self)
    obtain ⟨u, fs, hrest⟩ := ih (fun j hj => h j (List.mem_cons_of_mem i hj)) t
    exact ⟨u, es ++ fs, by simp only [exec, hstep, hrest]⟩

section Runs
variable {step : Step σ ι ε} {s t u : σ} {is js : List ι} {es fs : List ε}

theorem run_of_exec (h : exec step s is = some (t, es)) : Run step s is es t := by
  induction is generalizing s es with
  | nil =>
    obtain ⟨rfl, rfl⟩ := Prod.mk.inj (Option.some.inj h)
    exact .nil s
  | cons i is ih =>
    simp only [exec] at h
    split at h
    · cases h
    · rename_i m fs hstep
      split at h
      · cases h
      · rename_i n gs hrest
        obtain ⟨rfl, rfl⟩ := Prod.mk.inj (Option.some.inj h)
        exact .cons hstep (ih hrest)

/-- What every step keeps, every run keeps. -/
theorem Run.invariant {P : σ → Prop}
    (keep : ∀ {s i t es}, P s → step s i = some (t, es) → P t)
    (run : Run step s is es t) (hs : P s) : P t := by
  induction run with
  | nil => exact hs
  | cons h _ ih => exact ih (keep hs h)

/-- An invariant that may speak about everything that has happened so far. -/
theorem Run.history {P : σ → List ε → Prop}
    (keep : ∀ {s i t h es}, P s h → step s i = some (t, es) → P t (h ++ es))
    (run : Run step s is es t) {h : List ε} (hs : P s h) : P t (h ++ es) := by
  induction run generalizing h with
  | nil => simpa only [List.append_nil] using hs
  | cons hstep _ ih => simpa only [List.append_assoc] using ih (keep hs hstep)

theorem Run.precedes {P : σ → List ε → Prop} {φ : List ε → Prop} {e : ε}
    (keep : ∀ {s i t h es}, P s h → step s i = some (t, es) → P t (h ++ es))
    (guard : ∀ {s i t h es xs ys}, P s h → step s i = some (t, es) → es = xs ++ e :: ys →
      φ (h ++ xs))
    (run : Run step s is es t) (hs : P s []) : Precedes φ e es := by
  have hrun := run.history (P := fun s h => P s h ∧ Precedes φ e h) ?_ (h := []) ⟨hs, ?_⟩
  · exact hrun.2
  · rintro s i t h es ⟨hp, hpre⟩ hstep
    exact ⟨keep hp hstep, hpre.append fun xs ys heq => guard hp hstep heq⟩
  · intro xs ys heq
    cases xs <;> cases heq

/-- Conservation: if what is held before a step, with what the step gains, is what it loses and
what is held after it, so it is with runs. -/
theorem Run.balance {M : Type*} [AddCommMonoid M] {P : σ → Prop} {held : σ → M}
    {gain loss : List ε → M} (hgain : ∀ xs ys, gain (xs ++ ys) = gain xs + gain ys)
    (hloss : ∀ xs ys, loss (xs ++ ys) = loss xs + loss ys) (hnil : gain [] = loss [])
    (keep : ∀ {s i t es}, P s → step s i = some (t, es) → P t)
    (move : ∀ {s i t es}, P s → step s i = some (t, es) → held s + gain es = loss es + held t)
    (run : Run step s is es t) (hs : P s) : held s + gain es = loss es + held t := by
  induction run with
  | nil s => rw [hnil, add_comm]
  | @cons s t u i is es fs hstep _ ih =>
    calc held s + gain (es ++ fs) = held s + gain es + gain fs := by rw [hgain, add_assoc]
      _ = loss es + (held t + gain fs) := by rw [move hs hstep, add_assoc]
      _ = loss (es ++ fs) + held u := by rw [ih (keep hs hstep), hloss, add_assoc]

/-- Read backwards: if every continuation that `t` allows, prefixed by what is observed
of the step, is a continuation that `s` allows, the same holds of whole runs. -/
theorem Run.continuation {ω : Type*} {obs : ε → Option ω} {P : σ → Prop}
    {L : σ → List ω → Prop}
    (keep : ∀ {s i t es}, P s → step s i = some (t, es) → P t)
    (back : ∀ {s i t es w}, P s → step s i = some (t, es) → L t w →
      L s (es.filterMap obs ++ w))
    (run : Run step s is es t) (hs : P s) {w : List ω} (hw : L t w) :
    L s (es.filterMap obs ++ w) := by
  induction run with
  | nil => exact hw
  | cons h _ ih =>
    rw [List.filterMap_append, List.append_assoc]
    exact back hs h (ih (keep hs h) hw)

end Runs

end TuyaDaemon.EventMachine
