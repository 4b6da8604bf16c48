import TuyaDaemon.FailureRun
import TuyaDaemon.Openwrt.Main
import TuyaDaemon.Standalone.Main

/-!
# The verdict of the main loops

Both daemons run the same watched loop with a limit of ten failed sends in a row. The
counter is an `unsigned int` tested by equality; it never gets past the limit.
-/

namespace TuyaDaemon

set_option autoImplicit false

open Daemon FailureRun

def Daemon.LoopOutcome.round (o : LoopOutcome) : Round where
  enter := o.keepRunning
  alive := o.loopResult == oprtOk
  ok := o.sent

def FailureRun.Verdict.status : Verdict → LoopStatus
  | .head failures => .head (UInt32.ofNat failures)
  | .failed _ => .left false
  | .finished _ => .left true

section
variable (outcomes : Nat → LoopOutcome)

/-- The first thing that is wrong in iteration `n`, if anything is. -/
def FatalTurn (n : Nat) : Prop :=
  (outcomes n).loopResult ≠ oprtOk ∨
    (9 ≤ n ∧ ∀ j, n - 9 ≤ j → j ≤ n → (outcomes j).sent = false)

theorem fatal_round_iff (n : Nat) :
    Fatal 10 (fun i => (outcomes i).round) n ↔ FatalTurn outcomes n := by
  unfold Fatal FatalTurn
  refine or_congr (by simp [LoopOutcome.round]) (and_congr (by omega) ?_)
  refine forall_congr' fun j => ?_
  constructor
  · intro h hj
    exact h (by omega)
  · intro h hj
    exact h (by omega)

theorem alive_rounds_iff (n : Nat) : Alive 10 (fun i => (outcomes i).round) n ↔
    ∀ m, m < n → (outcomes m).keepRunning = true ∧ ¬ FatalTurn outcomes m := by
  simp only [Alive, fatal_round_iff]
  rfl

theorem count_succ_eq_ten_iff {f : Nat} (h : f < 10) :
    UInt32.ofNat f + 1 = 10 ↔ f + 1 = 10 := by
  have hall : ∀ f, f < 10 → (UInt32.ofNat f + 1 = 10 ↔ f + 1 = 10) := by decide
  exact hall f h

theorem turn_status {f : Nat} (h : f < 10) (o : LoopOutcome) (n : Nat) :
    Openwrt.mainLoopTurn o (UInt32.ofNat f) = (watchRound 10 o.round n f).status := by
  unfold Openwrt.mainLoopTurn watchRound
  by_cases hk : o.keepRunning = true
  · by_cases hl : o.loopResult = oprtOk
    · by_cases hs : o.sent = true
      · simp [LoopOutcome.round, hk, hl, hs, Verdict.status]
      · by_cases hf : f + 1 = 10
        · have hc := (count_succ_eq_ten_iff h).mpr hf
          simp [LoopOutcome.round, hk, hl, hs, hf, hc, Verdict.status]
        · have hc := mt (count_succ_eq_ten_iff h).mp hf
          simp [LoopOutcome.round, hk, hl, hs, hf, hc, Verdict.status]
    · simp [LoopOutcome.round, hk, hl, Verdict.status]
  · simp [LoopOutcome.round, hk, Verdict.status]

/-- The loop of the code and the watched loop go in step. -/
theorem mainLoop_eq_watch (n : Nat) :
    Openwrt.mainLoop outcomes n = (watch 10 (fun i => (outcomes i).round) n).status := by
  induction n with
  | zero => rfl
  | succ n ih =>
    rw [Openwrt.mainLoop, ih, watch]
    cases hw : watch 10 (fun i => (outcomes i).round) n with
    | head f =>
      obtain ⟨ha, rfl⟩ := (watch_head_iff (by decide) n f).mp hw
      exact turn_status (ha.failureRun_lt (by decide)) (outcomes n) n
    | failed m => rfl
    | finished m => rfl

theorem mainLoop_agree (n : Nat) :
    Standalone.mainLoop outcomes n = Openwrt.mainLoop outcomes n := by
  induction n with
  | zero => rfl
  | succ n ih =>
    rw [Standalone.mainLoop, Openwrt.mainLoop, ih]
    rfl

end

/-- The loop is left in iteration `n`: it is still at its head before, and not after. -/
def LeavesAt (status : Nat → LoopStatus) (success : Bool) (n : Nat) : Prop :=
  (∃ c, status n = .head c) ∧ status (n + 1) = .left success

/-- When a main loop stops, with what verdict, and what its counter says meanwhile. -/
structure LoopSpec (outcomes : Nat → LoopOutcome) (status : Nat → LoopStatus) : Prop where
  fails_iff : ∀ n, LeavesAt status false n ↔
    FatalTurn outcomes n ∧ (∀ m, m < n → ¬ FatalTurn outcomes m) ∧
      ∀ m, m ≤ n → (outcomes m).keepRunning = true
  succeeds_iff : ∀ n, LeavesAt status true n ↔
    (outcomes n).keepRunning = false ∧
      ∀ m, m < n → (outcomes m).keepRunning = true ∧ ¬ FatalTurn outcomes m
  continues_iff : ∀ n, (∃ c, status n = .head c) ↔
    ∀ m, m < n → (outcomes m).keepRunning = true ∧ ¬ FatalTurn outcomes m
  count_eq : ∀ n c, status n = .head c →
    c.toNat = failureRun (fun i => (outcomes i).sent) n ∧ c.toNat < 10

section
variable {outcomes : Nat → LoopOutcome} {n : Nat}

theorem status_eq_head_iff {v : Verdict} {c : UInt32} :
    v.status = .head c ↔ ∃ f, v = .head f ∧ c = UInt32.ofNat f := by
  cases v <;> simp [Verdict.status, eq_comm]

theorem mainLoop_head_iff (c : UInt32) : Openwrt.mainLoop outcomes n = .head c ↔
    Alive 10 (fun i => (outcomes i).round) n ∧
      c = UInt32.ofNat (failureRun (fun i => (outcomes i).sent) n) := by
  rw [mainLoop_eq_watch, status_eq_head_iff]
  constructor
  · intro ⟨f, hf, hc⟩
    obtain ⟨ha, rfl⟩ := (watch_head_iff (by decide) n f).mp hf
    exact ⟨ha, hc⟩
  · intro ⟨ha, hc⟩
    exact ⟨_, watch_of_alive (by decide) ha, hc⟩

theorem mainLoop_head_iff_alive : (∃ c, Openwrt.mainLoop outcomes n = .head c) ↔
    Alive 10 (fun i => (outcomes i).round) n := by
  simp only [mainLoop_head_iff, exists_and_left, exists_eq, and_true]

theorem leavesAt_iff (success : Bool) : LeavesAt (Openwrt.mainLoop outcomes) success n ↔
    Alive 10 (fun i => (outcomes i).round) n ∧
      if success then (outcomes n).keepRunning = false
      else (outcomes n).keepRunning = true ∧ Fatal 10 (fun i => (outcomes i).round) n := by
  unfold LeavesAt
  rw [mainLoop_head_iff_alive, mainLoop_eq_watch]
  refine and_congr_right fun ha => ?_
  cases he : (outcomes n).keepRunning with
  | false =>
    have hw := watch_of_not_enter (by decide) n.lt_succ_self ha he
    rw [hw]
    cases success <;> simp [Verdict.status]
  | true =>
    by_cases hf : Fatal 10 (fun i => (outcomes i).round) n
    · have hw := watch_of_fatal (by decide) n.lt_succ_self ha he hf
      rw [hw]
      cases success <;> simp [Verdict.status, hf]
    · have hw := watch_of_alive (by decide) (ha.succ he hf)
      rw [hw]
      cases success <;> simp [Verdict.status, hf]

/-- A loop fails sooner or later exactly when some iteration is fatal that all heads let in. -/
theorem ever_fails_iff (outcomes : Nat → LoopOutcome) :
    (∃ n, Standalone.mainLoop outcomes n = .left false) ↔
      ∃ n, FatalTurn outcomes n ∧ ∀ m, m ≤ n → (outcomes m).keepRunning = true := by
  have hfailed (v : Verdict) : v.status = .left false ↔ ∃ n, v = .failed n := by
    cases v <;> simp [Verdict.status]
  simp only [mainLoop_agree, mainLoop_eq_watch, hfailed]
  constructor
  · intro ⟨n, m, hw⟩
    obtain ⟨_, ha, he, hf⟩ := (watch_failed_iff (by decide) m n).mp hw
    refine ⟨m, (fatal_round_iff outcomes m).mp hf, fun k hk => ?_⟩
    rcases Nat.lt_or_eq_of_le hk with hlt | rfl
    · exact (ha k hlt).1
    · exact he
  · intro ⟨n, hf, hk⟩
    have hf' := (fatal_round_iff outcomes n).mpr hf
    rcases alive_or_ended 10 (fun i => (outcomes i).round) n with ha | ⟨m, hm, ha, he | ⟨he, hfm⟩⟩
    · exact ⟨n + 1, n, watch_of_fatal (by decide) n.lt_succ_self ha (hk n (Nat.le_refl n)) hf'⟩
    · have hkm : (outcomes m).keepRunning = false := he
      rw [hk m hm.le] at hkm
      cases hkm
    · exact ⟨m + 1, m, watch_of_fatal (by decide) m.lt_succ_self ha he hfm⟩

theorem mainLoop_spec (outcomes : Nat → LoopOutcome) :
    LoopSpec outcomes (Openwrt.mainLoop outcomes) where
  fails_iff n := by
    rw [leavesAt_iff, alive_rounds_iff, fatal_round_iff]
    simp only [Bool.false_eq_true, if_false]
    constructor
    · intro ⟨ha, hk, hf⟩
      refine ⟨hf, fun m hm => (ha m hm).2, fun m hm => ?_⟩
      rcases Nat.lt_or_eq_of_le hm with hlt | rfl
      · exact (ha m hlt).1
      · exact hk
    · intro ⟨hf, hno, hk⟩
      exact ⟨fun m hm => ⟨hk m hm.le, hno m hm⟩, hk n (Nat.le_refl n), hf⟩
  succeeds_iff n := by
    rw [leavesAt_iff, alive_rounds_iff]
    exact and_comm
  continues_iff n := by rw [mainLoop_head_iff_alive, alive_rounds_iff]
  count_eq n c h := by
    obtain ⟨ha, rfl⟩ := (mainLoop_head_iff c).mp h
    have hlt := ha.failureRun_lt (by decide)
    have hc : (UInt32.ofNat (failureRun (fun i => (outcomes i).sent) n)).toNat =
        failureRun (fun i => (outcomes i).sent) n :=
      UInt32.toNat_ofNat_of_lt' (Nat.lt_trans hlt (by decide))
    rw [hc]
    exact ⟨rfl, hlt⟩

/-- Both main loops stop when and as the specification says, with the same verdict in the same
iteration. -/
theorem main_loops_verdict (outcomes : Nat → LoopOutcome) :
    LoopSpec outcomes (Openwrt.mainLoop outcomes) ∧
      LoopSpec outcomes (Standalone.mainLoop outcomes) ∧
      ∀ n, Standalone.mainLoop outcomes n = Openwrt.mainLoop outcomes n := by
  have hagree : Standalone.mainLoop outcomes = Openwrt.mainLoop outcomes :=
    funext (mainLoop_agree outcomes)
  refine ⟨mainLoop_spec outcomes, ?_, mainLoop_agree outcomes⟩
  rw [hagree]
  exact mainLoop_spec outcomes

end
end TuyaDaemon
