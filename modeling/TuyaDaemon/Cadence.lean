import Mathlib.Algebra.GroupWithZero.Nat
import TuyaDaemon.Session
import TuyaDaemon.Openwrt.UbusLifetime
import TuyaDaemon.Standalone.Main

/-!
# The turns of the main loops

A turn calls `tuya_mqtt_loop`, asks for ten seconds of sleep and sends, in this order, and the
next one comes only after it. So there are no more periodic sends than sleeps were asked for; a
signal may cut the last of these short.
-/

namespace TuyaDaemon

set_option autoImplicit false

open Daemon EventMachine

namespace Daemon
variable {Pc Mem Conn Msg Env Ask ε : Type}

inductive Cadence where
  /-- The main loop was not entered yet. -/
  | before
  | head
  | entered
  | looped
  | slept
  | sending
  /-- `tuya_mqtt_loop` has failed. -/
  | failed
  | closed
  deriving DecidableEq, Repr

namespace Cadence

def iterate : Cadence → LoopName → Option Cadence
  | before, .main => some entered
  | before, _ => some before
  | head, .main => some entered
  | _, _ => none

def call : Cadence → SdkCall → Option Cadence
  | before, .connect => some before
  | before, .loop .setup => some before
  | entered, .loop .main => some entered
  | before, .disconnect => some closed
  | head, .disconnect => some closed
  | failed, .disconnect => some closed
  | _, _ => none

def returned : Cadence → SdkCall → Int → Option Cadence
  | before, .connect, _ => some before
  | before, .loop .setup, ret => some (if ret = oprtOk then before else failed)
  | entered, .loop .main, ret => some (if ret = oprtOk then looped else failed)
  | closed, .disconnect, _ => some closed
  | _, _, _ => none

def pause : Cadence → UInt32 → Option Cadence
  | before, _ => some before
  | looped, seconds => if seconds = 10 then some slept else none
  | _, _ => none

/-- Where main may leave the main loop, or has not come to it. -/
def Leaves (q : Cadence) : Prop := q = before ∨ q = head ∨ q = failed

/-- What comes in which order, whatever the callbacks do. -/
def turns : Protocol Cadence (Event ε)
  | q, .own _ => some q
  | q, .iteration l => q.iterate l
  | q, .call c => q.call c
  | q, .returned c ret => q.returned c ret
  | q, .sleep seconds => q.pause seconds
  | q, .periodicSend => if q = slept then some sending else none
  | q, .sent _ => if q = sending then some head else none
  | q, .deinit => if q = closed then some closed else none

/-! ## The sleeps pay for the sends -/

/-- The seconds asked for on account of a send that is still to come. -/
def paid : Cadence → Nat
  | slept => 10
  | _ => 0

def isSend : Event ε → Bool
  | .periodicSend => true
  | _ => false

/-- Ten seconds for each send. -/
def Afford (q : Cadence) (es : List (Event ε)) : Prop :=
  10 * es.countP isSend + q.paid ≤ (sleeps es).sum

section
variable {q r : Cadence} {h : List (Event ε)}

theorem paid_iterate {l : LoopName} (hr : q.iterate l = some r) : r.paid = 0 := by
  cases q <;> cases l <;> cases hr <;> rfl

theorem paid_call {c : SdkCall} (hr : q.call c = some r) : r.paid = 0 := by
  unfold call at hr
  split at hr <;> cases hr <;> rfl

theorem paid_returned {c : SdkCall} {ret : Int} (hr : q.returned c ret = some r) :
    r.paid = 0 := by
  unfold returned at hr
  split at hr
  · cases hr
    rfl
  · cases hr
    split <;> rfl
  · cases hr
    split <;> rfl
  · cases hr
    rfl
  · cases hr

theorem paid_pause {seconds : UInt32} (hr : q.pause seconds = some r) :
    r.paid ≤ seconds.toNat := by
  cases q with
  | before =>
    cases hr
    exact Nat.zero_le _
  | looped =>
    obtain ⟨rfl, hr⟩ := Option.ite_none_right_eq_some.mp hr
    cases hr
    exact Nat.le_refl 10
  | _ => cases hr

theorem Afford.next {e : Event ε} (hq : q.Afford h)
    (hpay : 10 * [e].countP isSend + r.paid ≤ (sleeps [e]).sum + q.paid) :
    r.Afford (h ++ [e]) := by
  unfold Afford at hq ⊢
  rw [List.countP_append, sleeps_append, List.sum_append]
  omega

/-- An event that is neither a sleep nor a send costs nothing, and nothing is left over. -/
theorem Afford.quiet {e : Event ε} (hq : q.Afford h) (hsleep : (sleeps [e]).sum = 0)
    (hsend : [e].countP isSend = 0) (hr : r.paid ≤ q.paid) : r.Afford (h ++ [e]) := by
  apply hq.next
  rw [hsleep, hsend]
  omega

theorem Afford.step {e : Event ε} (hq : q.Afford h) (hr : turns q e = some r) :
    r.Afford (h ++ [e]) := by
  cases e with
  | own e =>
    cases hr
    exact hq.quiet rfl rfl (Nat.le_refl _)
  | iteration l => exact hq.quiet rfl rfl ((paid_iterate hr).le.trans (Nat.zero_le _))
  | call c => exact hq.quiet rfl rfl ((paid_call hr).le.trans (Nat.zero_le _))
  | returned c ret => exact hq.quiet rfl rfl ((paid_returned hr).le.trans (Nat.zero_le _))
  | deinit =>
    obtain ⟨rfl, hr⟩ := Option.ite_none_right_eq_some.mp hr
    cases hr
    exact hq.quiet rfl rfl (Nat.le_refl _)
  | sleep seconds =>
    have hpaid : r.paid ≤ seconds.toNat := paid_pause hr
    have hsleep : (sleeps [(.sleep seconds : Event ε)]).sum = seconds.toNat := rfl
    have hsend : [(.sleep seconds : Event ε)].countP isSend = 0 := rfl
    apply hq.next
    omega
  | periodicSend =>
    obtain ⟨rfl, hr⟩ := Option.ite_none_right_eq_some.mp hr
    cases hr
    exact hq.next (Nat.le_refl 10)
  | sent ok =>
    obtain ⟨rfl, hr⟩ := Option.ite_none_right_eq_some.mp hr
    cases hr
    exact hq.quiet rfl rfl (Nat.le_refl 0)

end

theorem afford_after {q : Cadence} {es : List (Event ε)} (h : turns.after before es = some q) :
    q.Afford es :=
  Protocol.after_history (P := Afford) (fun hq hr => hq.step hr) h (s := []) (Nat.le_refl 0)

/-! ## Instruction by instruction -/

section
variable {p : Program Pc Mem Conn Msg Env Ask ε} {stands : Pc → Cadence → Prop} {s : State Pc Mem}
  {q m : Cadence}

/-- The turn goes on, wherever the program stands. -/
abbrev Turns (stands : Pc → Cadence → Prop) (q : Cadence) (t : State Pc Mem)
    (es : List (Event ε)) : Prop :=
  GoesOn turns (fun _ => True) (fun s q => stands s.pc q) q t es

theorem after_own (es : List ε) : turns.after q (es.map .own) = some q := by
  apply Protocol.after_of_ignored
  intro e he
  obtain ⟨f, _, rfl⟩ := List.mem_map.mp he
  rfl

theorem ensures_ask {next : Ask → Mem → Option (Pc × Mem × List ε)}
    (h : ∀ a mem pc mem' es, next a mem = some (pc, mem', es) → stands pc q) :
    (Instr.ask next : Instr Pc Mem Ask ε).Ensures p s (Turns stands q) := by
  intro a pc mem es hask _
  exact ⟨q, after_own es, h a _ pc mem es hask⟩

theorem ensures_call {c : SdkCall} {next : Int → Pc} (hc : q.call c = some m)
    (h : ∀ ret, ∃ r, m.returned c ret = some r ∧ stands (next ret) r) :
    (Instr.sdk c next : Instr Pc Mem Ask ε).Ensures p s (Turns stands q) := by
  intro callbacks ret mem es _ _
  obtain ⟨r, hr, hat⟩ := h ret
  refine ⟨r, Protocol.after_append (r := m) ?_ ?_, hat⟩
  · exact Protocol.after_cons_eq_some_iff.mpr ⟨m, hc, after_own es⟩
  · exact Protocol.after_cons_eq_some_iff.mpr ⟨r, hr, rfl⟩

theorem ensures_setupLoop {fail next : Pc} (hq : q = before) (hfail : stands fail failed)
    (hnext : stands next before) :
    (Instr.sdk (.loop .setup) fun ret => if ret ≠ oprtOk then fail else next :
      Instr Pc Mem Ask ε).Ensures p s (Turns stands q) := by
  apply ensures_call (m := before)
  · rw [hq]
    rfl
  · intro ret
    refine ⟨_, rfl, ?_⟩
    by_cases hret : ret = oprtOk
    · rw [if_pos hret, if_neg (not_not.mpr hret)]
      exact hnext
    · rw [if_neg hret, if_pos hret]
      exact hfail

theorem ensures_mainLoop {fail next : Pc} (hq : q = entered) (hfail : stands fail failed)
    (hnext : stands next looped) :
    (Instr.sdk (.loop .main) fun ret => if ret ≠ oprtOk then fail else next :
      Instr Pc Mem Ask ε).Ensures p s (Turns stands q) := by
  apply ensures_call (m := entered)
  · rw [hq]
    rfl
  · intro ret
    refine ⟨_, rfl, ?_⟩
    by_cases hret : ret = oprtOk
    · rw [if_pos hret, if_neg (not_not.mpr hret)]
      exact hnext
    · rw [if_neg hret, if_pos hret]
      exact hfail

theorem ensures_send {next : Bool → Pc} (hq : q = slept) (h : ∀ ok, stands (next ok) head) :
    (Instr.send next : Instr Pc Mem Ask ε).Ensures p s (Turns stands q) := by
  intro env ok mem es _ _
  refine ⟨head, Protocol.after_append (r := sending) ?_ rfl, h ok⟩
  exact Protocol.after_cons_eq_some_iff.mpr ⟨sending, if_pos hq, after_own es⟩

end

/-- A run takes its turns in order, and asks for ten seconds of sleep for every periodic send. -/
def KeepsTurns (p : Program Pc Mem Conn Msg Env Ask ε) (start : State Pc Mem) : Prop :=
  ∀ is es s, Run (step p) start is es s → (∃ q, turns.after before es = some q) ∧
    10 * es.countP isSend ≤ (sleeps es).sum

/-- A program whose points tell where the turn stands. -/
structure Turning (p : Program Pc Mem Conn Msg Env Ask ε) where
  stands : Pc → Cadence → Prop
  instr : ∀ s q, stands s.pc q → (p.instr s.pc).Ensures p s (Turns stands q)

namespace Turning
variable {p : Program Pc Mem Conn Msg Env Ask ε}

def client (T : Turning p) : Client p turns where
  expected _ := True
  serves s q := T.stands s.pc q
  signal _ _ h := h
  instr := T.instr

theorem keepsTurns (T : Turning p) {start : State Pc Mem} (h : T.stands start.pc before) :
    KeepsTurns p start := by
  intro is es s run
  obtain ⟨q, hq, _⟩ := T.client.run run h fun _ _ => trivial
  have hafford : 10 * es.countP isSend + q.paid ≤ (sleeps es).sum := afford_after hq
  exact ⟨⟨q, hq⟩, (Nat.le_add_right _ _).trans hafford⟩

end Turning
end Cadence
end Daemon

/-! ## The two programs -/

open Cadence

namespace Openwrt

/-- Where the turn stands at a program point. -/
def Stands : Pc → Cadence → Prop
  | .mainHead _, q => q = before ∨ q = head
  | .mainLoop _, q => q = entered
  | .mainSleep _, q => q = looped
  | .mainSend _, q => q = slept
  | .cleanupMqtt _, q => q.Leaves
  | .mqttDeinit _, q => q = closed
  | .cleanupEnd _, _ => True
  | .exited _, _ => True
  | _, q => q = before

variable {Attr Data : Type} (lib : Blobmsg Attr Data)

theorem instr_turns (s : State Pc Memory) (q : Cadence) (h : Stands s.pc q) :
    (instr s.pc).Ensures (program lib) s (Turns Stands q) := by
  obtain ⟨pc, k, m⟩ := s
  cases pc with
  | uciAlloc =>
    apply ensures_ask
    intro a mem pc mem' es hask
    rcases allocUci_cases hask with ⟨rfl, _⟩ | ⟨_, rfl, _⟩
    · trivial
    · exact h
  | options =>
    apply ensures_ask
    intro a mem pc mem' es hask
    obtain ⟨rfl | ⟨_, rfl⟩, _⟩ := loadOptions_cases hask
    · trivial
    · exact h
  | mqttInit o =>
    apply ensures_ask
    intro a mem pc mem' es hask
    obtain ⟨_, _, _, _, ⟨rfl, _⟩ | ⟨rfl, _⟩⟩ := initMqtt_cases hask
    · exact Or.inl h
    · exact h
  | ubusConnect =>
    apply ensures_ask
    intro a mem pc mem' es hask
    rcases connectUbus_cases hask with ⟨rfl, _⟩ | ⟨_, rfl, _⟩
    · exact Or.inl h
    · exact h
  | connect =>
    obtain rfl : q = before := h
    exact ensures_call rfl fun _ => ⟨before, rfl, rfl⟩
  | retryHead i sleepSeconds ret =>
    obtain rfl : q = before := h
    apply ensures_test
    · exact fun _ => ⟨before, rfl, rfl⟩
    · intro _
      by_cases hret : ret = oprtOk
      · simp [hret, Stands]
      · simp [hret, Stands, Leaves]
  | retrySleep i sleepSeconds =>
    obtain rfl : q = before := h
    exact ensures_sleep rfl rfl
  | retryConnect i sleepSeconds =>
    obtain rfl : q = before := h
    exact ensures_call rfl fun _ => ⟨before, rfl, rfl⟩
  | setupConnected =>
    apply ensures_ask
    intro a mem pc mem' es hask
    obtain ⟨_, ⟨rfl, _⟩ | ⟨rfl, _⟩⟩ := askConnected_cases hask
    · exact Or.inl h
    · exact h
  | setupHead =>
    obtain rfl : q = before := h
    apply ensures_test
    · exact fun _ => ⟨before, rfl, rfl⟩
    · exact fun _ => Or.inl rfl
  | setupLoop => exact ensures_setupLoop h (Or.inr (Or.inr rfl)) rfl
  | mainHead c =>
    apply ensures_test
    · intro _
      rcases h with rfl | rfl
      · exact ⟨entered, rfl, rfl⟩
      · exact ⟨entered, rfl, rfl⟩
    · exact fun _ => h.imp_right Or.inl
  | mainLoop c => exact ensures_mainLoop h (Or.inr (Or.inr rfl)) rfl
  | mainSleep c =>
    obtain rfl : q = looped := h
    exact ensures_sleep (r := slept) rfl rfl
  | mainSend c =>
    apply ensures_send h
    intro ok
    by_cases hc : c + 1 = 10 <;> cases ok <;> simp [hc, Stands, Leaves]
  | cleanupMqtt retVal =>
    apply ensures_call (m := closed)
    · rcases h with rfl | rfl | rfl <;> rfl
    · exact fun _ => ⟨closed, rfl, rfl⟩
  | mqttDeinit retVal =>
    obtain rfl : q = closed := h
    exact ensures_deinit rfl trivial
  | cleanupEnd retVal =>
    apply ensures_ask
    intro a mem pc mem' es hask
    obtain ⟨rfl, _⟩ := cleanUp_cases hask
    trivial
  | exited retVal => trivial

def turning : Turning (program lib) := ⟨Stands, instr_turns lib⟩

end Openwrt

namespace Standalone

/-- Where the turn stands at a program point. -/
def Stands : Pc → Cadence → Prop
  | .mainHead _, q => q = before ∨ q = head
  | .mainLoop _, q => q = entered
  | .mainSleep _, q => q = looped
  | .mainSend _, q => q = slept
  | .cleanup _, q => q.Leaves
  | .mqttDeinit _, q => q = closed
  | .freeFormat _, q => q = closed
  | .exited _, _ => True
  | .argpExited _, _ => True
  | _, q => q = before

variable {Tm : Type} (lib : Strftime Tm)

theorem instr_turns (s : State Pc Memory) (q : Cadence) (h : Stands s.pc q) :
    (instr s.pc).Ensures (program lib) s (Turns Stands q) := by
  obtain ⟨pc, k, m⟩ := s
  cases pc with
  | argpParse =>
    apply ensures_ask
    intro a mem pc mem' es hask
    obtain ⟨rfl | ⟨_, rfl⟩ | ⟨_, rfl | rfl⟩, _⟩ := readArguments_cases hask
    · trivial
    · trivial
    · exact h
    · exact h
  | becomeDaemon arguments =>
    apply ensures_ask
    intro a mem pc mem' es hask
    obtain ⟨rfl | rfl, _⟩ := checkDaemon_cases hask
    · trivial
    · exact h
  | mqttInit arguments =>
    apply ensures_ask
    intro a mem pc mem' es hask
    obtain ⟨rfl | rfl, _⟩ := initTuya_cases hask
    · trivial
    · exact h
  | connect =>
    obtain rfl : q = before := h
    exact ensures_call rfl fun _ => ⟨before, rfl, rfl⟩
  | retryHead i sleepSeconds ret =>
    obtain rfl : q = before := h
    apply ensures_test
    · exact fun _ => ⟨before, rfl, rfl⟩
    · intro _
      by_cases hret : ret = oprtOk
      · simp [hret, Stands]
      · simp [hret, Stands, Leaves]
  | retrySleep i sleepSeconds =>
    obtain rfl : q = before := h
    exact ensures_sleep rfl rfl
  | retryConnect i sleepSeconds =>
    obtain rfl : q = before := h
    exact ensures_call rfl fun _ => ⟨before, rfl, rfl⟩
  | setupHead i =>
    obtain rfl : q = before := h
    apply ensures_test
    · exact fun _ => ⟨before, rfl, rfl⟩
    · exact fun _ => Or.inl rfl
  | setupLoop i => exact ensures_setupLoop h (Or.inr (Or.inr rfl)) rfl
  | mainHead c =>
    apply ensures_test
    · intro _
      rcases h with rfl | rfl
      · exact ⟨entered, rfl, rfl⟩
      · exact ⟨entered, rfl, rfl⟩
    · exact fun _ => h.imp_right Or.inl
  | mainLoop c => exact ensures_mainLoop h (Or.inr (Or.inr rfl)) rfl
  | mainSleep c =>
    obtain rfl : q = looped := h
    exact ensures_sleep (r := slept) rfl rfl
  | mainSend c =>
    apply ensures_send h
    intro ok
    by_cases hc : c + 1 = 10 <;> cases ok <;> simp [hc, Stands, Leaves]
  | cleanup retVal =>
    apply ensures_call (m := closed)
    · rcases h with rfl | rfl | rfl <;> rfl
    · exact fun _ => ⟨closed, rfl, rfl⟩
  | mqttDeinit retVal =>
    obtain rfl : q = closed := h
    exact ensures_deinit rfl rfl
  | freeFormat retVal =>
    apply ensures_ask
    intro a mem pc mem' es hask
    obtain ⟨rfl, _⟩ := freeOnExit_cases hask
    trivial
  | exited retVal => trivial
  | argpExited status => trivial

def turning : Turning (program lib) := ⟨Stands, instr_turns lib⟩

end Standalone

/-- Both main loops take their turns in order: no periodic send without a sleep of ten seconds
that was asked for before it. -/
theorem main_loops_keep_turns :
    (∀ {Attr Data : Type} (lib : Openwrt.Blobmsg Attr Data),
      KeepsTurns (Openwrt.program lib) Openwrt.start) ∧
    ∀ {Tm : Type} (lib : Standalone.Strftime Tm),
      KeepsTurns (Standalone.program lib) Standalone.start :=
  ⟨fun lib => (Openwrt.turning lib).keepsTurns rfl,
    fun lib => (Standalone.turning lib).keepsTurns rfl⟩

open Openwrt in
theorem main_loops_keep_turns_loss : ∃ es t,
    Run (step (program Blob.blobmsg)) start lossInputs es t ∧ es.countP isSend = 1 ∧
      (∃ q, turns.after before es = some q) ∧ 10 * es.countP isSend ≤ (sleeps es).sum := by
  have hrun := @run_of_exec _ _ _ (step (program Blob.blobmsg)) start _ lossInputs _ rfl
  exact ⟨_, _, hrun, rfl, main_loops_keep_turns.1 Blob.blobmsg _ _ _ hrun⟩

end TuyaDaemon
