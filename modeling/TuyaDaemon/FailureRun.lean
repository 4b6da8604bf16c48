import Mathlib.Data.List.Basic

/-!
# Loops that give up after a run of failures

A watched loop polls, then acts, and counts the actions that failed since the
last one that succeeded; it gives up when the poll fails or when the count
reaches `limit`. The counter is tested by equality, as programs write it, and the
theorems say what the loop decides in terms of the outcomes alone.
-/

namespace TuyaDaemon.FailureRun

set_option autoImplicit false

def failureRun (ok : Nat → Bool) : Nat → Nat
  | 0 => 0
  | n + 1 => if ok n then 0 else failureRun ok n + 1

theorem le_failureRun_iff (ok : Nat → Bool) (k n : Nat) :
    k ≤ failureRun ok n ↔ k ≤ n ∧ ∀ j, n ≤ j + k → j < n → ok j = false := by
  induction n generalizing k with
  | zero => simp [failureRun]
  | succ n ih =>
    cases hok : ok n with
    | true =>
      simp only [failureRun, hok, if_true]
      constructor
      · intro hk
        exact ⟨by omega, fun j hj hjn => by omega⟩
      · rintro ⟨_, hall⟩
        by_cases hk : k = 0
        · omega
        · have := hall n (by omega) (by omega)
          rw [hok] at this
          cases this
    | false =>
      simp only [failureRun, hok, Bool.false_eq_true, if_false]
      constructor
      · intro hk
        have hprev := (ih (k - 1)).mp (by omega)
        refine ⟨by omega, fun j hj hjn => ?_⟩
        by_cases hjn' : j = n
        · exact hjn' ▸ hok
        · exact hprev.2 j (by omega) (by omega)
      · rintro ⟨hk, hall⟩
        have := (ih (k - 1)).mpr ⟨by omega, fun j hj hjn => hall j (by omega) (by omega)⟩
        omega

structure Round where
  enter : Bool
  alive : Bool
  ok : Bool

/-- Where a watched loop stands: at its head with the count of failures in a
row, or stopped in iteration `n`. -/
inductive Verdict where
  | head (failures : Nat)
  | failed (n : Nat)
  | finished (n : Nat)
  deriving DecidableEq, Repr

def watchRound (limit : Nat) (r : Round) (n failures : Nat) : Verdict :=
  if !r.enter then .finished n
  else if !r.alive then .failed n
  else if r.ok then .head 0
  else if failures + 1 = limit then .failed n
  else .head (failures + 1)

def watch (limit : Nat) (rounds : Nat → Round) : Nat → Verdict
  | 0 => .head 0
  | n + 1 =>
    match watch limit rounds n with
    | .head failures => watchRound limit (rounds n) n failures
    | stopped => stopped

section Watch
variable (limit : Nat) (rounds : Nat → Round)

/-- The poll fails in iteration `n`, or the last `limit` actions up to it all failed. -/
def Fatal (n : Nat) : Prop :=
  (rounds n).alive = false ∨
    (limit ≤ n + 1 ∧ ∀ j, n + 1 ≤ j + limit → j ≤ n → (rounds j).ok = false)

theorem fatal_iff (n : Nat) : Fatal limit rounds n ↔
    (rounds n).alive = false ∨ limit ≤ failureRun (fun i => (rounds i).ok) (n + 1) := by
  rw [le_failureRun_iff]
  simp only [Fatal, Nat.lt_succ_iff]

def Alive (n : Nat) : Prop :=
  ∀ m, m < n → (rounds m).enter = true ∧ ¬ Fatal limit rounds m

variable {limit rounds}

theorem Alive.succ {n : Nat} (h : Alive limit rounds n) (he : (rounds n).enter = true)
    (hf : ¬ Fatal limit rounds n) : Alive limit rounds (n + 1) := by
  intro m hm
  by_cases hmn : m = n
  · exact hmn ▸ ⟨he, hf⟩
  · exact h m (by omega)

theorem Alive.of_succ {n : Nat} (h : Alive limit rounds (n + 1)) : Alive limit rounds n :=
  fun m hm => h m (by omega)

theorem Alive.failureRun_lt {n : Nat} (hl : 0 < limit) (h : Alive limit rounds n) :
    failureRun (fun i => (rounds i).ok) n < limit := by
  cases n with
  | zero => exact hl
  | succ n =>
    have hf := (h n (by omega)).2
    rw [fatal_iff] at hf
    omega

theorem watch_of_alive (hl : 0 < limit) {n : Nat} (h : Alive limit rounds n) :
    watch limit rounds n = .head (failureRun (fun i => (rounds i).ok) n) := by
  induction n with
  | zero => rfl
  | succ n ih =>
    obtain ⟨he, hf⟩ := h n (by omega)
    have ha : (rounds n).alive = true := by
      by_contra ha
      exact hf (Or.inl (Bool.not_eq_true _ ▸ ha))
    have hlt := h.failureRun_lt hl
    simp only [watch, ih h.of_succ, watchRound, he, ha, Bool.not_true, Bool.false_eq_true, if_false]
    by_cases hok : (rounds n).ok = true
    · simp only [failureRun, hok, if_true]
    · simp only [failureRun, if_neg hok] at hlt ⊢
      rw [if_neg (by omega)]

theorem watch_stable {n m : Nat} (hnm : n ≤ m) (h : ∀ c, watch limit rounds n ≠ .head c) :
    watch limit rounds m = watch limit rounds n := by
  induction hnm with
  | refl => rfl
  | @step m _ ih =>
    rw [watch, ih]
    cases hv : watch limit rounds n with
    | head c => exact absurd hv (h c)
    | failed _ => rfl
    | finished _ => rfl

theorem watch_of_not_enter (hl : 0 < limit) {n m : Nat} (hnm : n < m)
    (h : Alive limit rounds n) (he : (rounds n).enter = false) :
    watch limit rounds m = .finished n := by
  have hnext : watch limit rounds (n + 1) = .finished n := by
    simp only [watch, watch_of_alive hl h, watchRound, he, Bool.not_false, if_true]
  rw [watch_stable hnm (by simp [hnext]), hnext]

theorem watch_of_fatal (hl : 0 < limit) {n m : Nat} (hnm : n < m)
    (h : Alive limit rounds n) (he : (rounds n).enter = true) (hf : Fatal limit rounds n) :
    watch limit rounds m = .failed n := by
  have hlt := h.failureRun_lt hl
  rw [fatal_iff] at hf
  have hnext : watch limit rounds (n + 1) = .failed n := by
    simp only [watch, watch_of_alive hl h, watchRound, he, Bool.not_true, Bool.false_eq_true,
      if_false]
    by_cases ha : (rounds n).alive = true
    · simp only [ha, Bool.true_eq_false, false_or, failureRun] at hf
      have hok : ¬ (rounds n).ok = true := by
        intro hok
        rw [if_pos hok] at hf
        omega
      rw [if_neg hok] at hf
      have heq : failureRun (fun i => (rounds i).ok) n + 1 = limit := by omega
      simp [ha, hok, heq]
    · simp [ha]
  rw [watch_stable hnm (by simp [hnext]), hnext]

variable (limit rounds)

theorem alive_or_ended (n : Nat) : Alive limit rounds n ∨
    ∃ m, m < n ∧ Alive limit rounds m ∧
      ((rounds m).enter = false ∨ ((rounds m).enter = true ∧ Fatal limit rounds m)) := by
  induction n with
  | zero => exact Or.inl (fun m hm => absurd hm (by omega))
  | succ n ih =>
    rcases ih with h | ⟨m, hm, hrest⟩
    · cases he : (rounds n).enter with
      | false => exact Or.inr ⟨n, by omega, h, Or.inl he⟩
      | true =>
        by_cases hf : Fatal limit rounds n
        · exact Or.inr ⟨n, by omega, h, Or.inr ⟨he, hf⟩⟩
        · exact Or.inl (h.succ he hf)
    · exact Or.inr ⟨m, by omega, hrest⟩

end Watch

section Exact
variable {limit : Nat} {rounds : Nat → Round} (hl : 0 < limit)
include hl

/-- The loop is at its head after `n` iterations exactly when nothing ended it, and
then the counter is the current run of failures. -/
theorem watch_head_iff (n c : Nat) : watch limit rounds n = .head c ↔
    Alive limit rounds n ∧ c = failureRun (fun i => (rounds i).ok) n := by
  constructor
  · intro h
    rcases alive_or_ended limit rounds n with
      ha | ⟨m, hm, ha, he | ⟨he, hf⟩⟩
    · rw [watch_of_alive hl ha] at h
      exact ⟨ha, (Verdict.head.inj h).symm⟩
    · rw [watch_of_not_enter hl hm ha he] at h
      cases h
    · rw [watch_of_fatal hl hm ha he hf] at h
      cases h
  · rintro ⟨ha, rfl⟩
    exact watch_of_alive hl ha

/-- The loop fails in iteration `n` exactly when `n` is the first fatal iteration
and every head up to it was entered. -/
theorem watch_failed_iff (n m : Nat) : watch limit rounds m = .failed n ↔
    n < m ∧ Alive limit rounds n ∧ (rounds n).enter = true ∧ Fatal limit rounds n := by
  constructor
  · intro h
    rcases alive_or_ended limit rounds m with
      ha | ⟨k, hk, ha, he | ⟨he, hf⟩⟩
    · rw [watch_of_alive hl ha] at h
      cases h
    · rw [watch_of_not_enter hl hk ha he] at h
      cases h
    · rw [watch_of_fatal hl hk ha he hf] at h
      cases h
      exact ⟨hk, ha, he, hf⟩
  · rintro ⟨hnm, ha, he, hf⟩
    exact watch_of_fatal hl hnm ha he hf

end Exact

end TuyaDaemon.FailureRun
