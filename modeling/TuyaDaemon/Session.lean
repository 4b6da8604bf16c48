import Mathlib.Algebra.Order.Group.Multiset
import TuyaDaemon.Daemon
import TuyaDaemon.Typestate

/-!
# A session with the SDK

How both daemons are meant to use the SDK: initialise it once, dial until `tuya_mqtt_connect`
succeeds, with pauses that double, then loop and send, and in the end disconnect and
deinitialise. After a failed loop nothing but the disconnect is left.
-/

namespace TuyaDaemon.Daemon

set_option autoImplicit false

open EventMachine

/-! ## Programs that keep to a protocol -/

section
variable {Pc Mem Conn Msg Env Ask ε τ : Type} {proto : Protocol τ (Event ε)}

/-- From `q` the protocol allows the events, as long as they are expected, and it comes to
stand where `serves` says that it does in the new state. -/
def GoesOn (proto : Protocol τ (Event ε)) (expected : ε → Prop)
    (serves : State Pc Mem → τ → Prop) (q : τ) (t : State Pc Mem) (es : List (Event ε)) : Prop :=
  (∀ e, .own e ∈ es → expected e) → ∃ r, proto.after q es = some r ∧ serves t r

/-- A program that knows in every state where the protocol stands. -/
structure Client (p : Program Pc Mem Conn Msg Env Ask ε) (proto : Protocol τ (Event ε)) where
  expected : ε → Prop
  serves : State Pc Mem → τ → Prop
  signal : ∀ s q, serves s q → serves { s with keepRunning := false } q
  instr : ∀ s q, serves s q → (p.instr s.pc).Ensures p s (GoesOn proto expected serves q)

/-- Every run of a client in which it does what is expected obeys the protocol. -/
theorem Client.run {p : Program Pc Mem Conn Msg Env Ask ε} (c : Client p proto)
    {s t : State Pc Mem} {is : List (Input Conn Msg Env Ask)} {es : List (Event ε)} {q : τ}
    (run : Run (step p) s is es t) (h : c.serves s q)
    (hes : ∀ e, .own e ∈ es → c.expected e) :
    ∃ r, proto.after q es = some r ∧ c.serves t r := by
  apply run.obeys (R := c.serves) (P := fun e => ∀ f, e = .own f → c.expected f) ?_ ?_ h
  · intro s i t es q hq hstep hes
    have hstep := step_ensures (Q := GoesOn proto c.expected c.serves q) hstep
      (fun _ => ⟨q, rfl, c.signal s q hq⟩) (c.instr s q hq)
    exact hstep fun e he => hes _ he e rfl
  · rintro _ he f rfl
    exact hes f he

variable {p : Program Pc Mem Conn Msg Env Ask ε} {expected : ε → Prop}
  {serves : State Pc Mem → τ → Prop} {s : State Pc Mem} {q r : τ}

theorem ensures_test {l : LoopName} {condition : Bool} {enter leave : Pc}
    (henter : condition = true →
      ∃ r, proto q (.iteration l) = some r ∧ serves { s with pc := enter } r)
    (hleave : (condition && s.keepRunning) = false → serves { s with pc := leave } q) :
    (Instr.test l condition enter leave : Instr Pc Mem Ask ε).Ensures p s
      (GoesOn proto expected serves q) := by
  refine ⟨fun hc _ _ => ?_, fun hc _ => ⟨q, rfl, hleave hc⟩⟩
  obtain ⟨r, hr, hserves⟩ := henter hc
  exact ⟨r, Protocol.after_cons_eq_some_iff.mpr ⟨r, hr, rfl⟩, hserves⟩

theorem ensures_sleep {seconds : UInt32} {next : Pc} (hr : proto q (.sleep seconds) = some r)
    (h : serves { s with pc := next } r) :
    (Instr.sleep seconds next : Instr Pc Mem Ask ε).Ensures p s
      (GoesOn proto expected serves q) :=
  fun _ => ⟨r, Protocol.after_cons_eq_some_iff.mpr ⟨r, hr, rfl⟩, h⟩

theorem ensures_deinit {next : Pc} (hr : proto q .deinit = some r)
    (h : serves { s with pc := next } r) :
    (Instr.deinit next : Instr Pc Mem Ask ε).Ensures p s (GoesOn proto expected serves q) :=
  fun _ => ⟨r, Protocol.after_cons_eq_some_iff.mpr ⟨r, hr, rfl⟩, h⟩

end

inductive Session where
  | fresh
  | refused
  /-- `tuya_mqtt_connect` is due, and has failed so many times. -/
  | ready (failures : Nat)
  | failing (failures : Nat)
  /-- `tuya_mqtt_connect` has succeeded, and so many periodic sends in a row have failed. -/
  | established (failures : Nat)
  | sending (failures : Nat)
  | broken (l : LoopName)
  | closed (last : Session)
  | released (last : Session)
  deriving DecidableEq, Repr

namespace Session

def retries : Nat := 10

def initialise : Session → Int → Option Session
  | fresh, ret => some (if ret = oprtOk then ready 0 else refused)
  | _, _ => none

def returned : Session → SdkCall → Int → Option Session
  | ready n, .connect, ret => some (if ret = oprtOk then established 0 else failing (n + 1))
  | established n, .loop l, ret => some (if ret = oprtOk then established n else broken l)
  | ready 0, .disconnect, _ => some (closed (ready 0))
  | failing n, .disconnect, _ => some (closed (failing n))
  | established n, .disconnect, _ => some (closed (established n))
  | broken l, .disconnect, _ => some (closed (broken l))
  | _, _, _ => none

def pause : Session → UInt32 → Option Session
  | failing n, seconds =>
    if n ≤ retries ∧ seconds.toNat = 2 ^ n then some (ready n) else none
  | established n, seconds => if seconds = 10 then some (established n) else none
  | _, _ => none

def sent : Session → Bool → Option Session
  | sending n, ok => some (established (if ok then 0 else n + 1))
  | _, _ => none

def iterate : Session → LoopName → Option Session
  | failing n, .retry => some (failing n)
  | established n, .setup => some (established n)
  | established n, .main => some (established n)
  | _, _ => none

variable {ε : Type}

/-- The protocol of the SDK; `init?` is the result of `tuya_mqtt_init`. -/
def sdk (init? : ε → Option Int) : Protocol Session (Event ε)
  | q, .own e =>
    match init? e with
    | none => some q
    | some ret => q.initialise ret
  | q, .call c => if (q.returned c oprtOk).isSome then some q else none
  | q, .returned c ret => q.returned c ret
  | q, .sleep seconds => q.pause seconds
  | q, .iteration l => q.iterate l
  | established n, .periodicSend => some (sending n)
  | q, .sent ok => q.sent ok
  | closed last, .deinit => some (released last)
  | _, _ => none

variable {init? : ε → Option Int} {q r : Session}

theorem after_quiet {es : List ε} (h : ∀ e ∈ es, init? e = none) :
    (sdk init?).after q (es.map .own) = some q := by
  apply Protocol.after_of_ignored
  intro e he
  obtain ⟨f, hf, rfl⟩ := List.mem_map.mp he
  simp only [sdk, h f hf]

/-- One call of the SDK, with the callbacks in it. -/
theorem after_call {c : SdkCall} {ret : Int} {es : List ε} (h : ∀ e ∈ es, init? e = none)
    (hok : (q.returned c oprtOk).isSome = true) (hret : q.returned c ret = some r) :
    (sdk init?).after q (.call c :: es.map .own ++ [.returned c ret]) = some r := by
  refine Protocol.after_append (Protocol.after_cons_eq_some_iff.mpr ⟨q, ?_, after_quiet h⟩) ?_
  · exact if_pos hok
  · exact Protocol.after_cons_eq_some_iff.mpr ⟨r, hret, rfl⟩

theorem after_send {n : Nat} {ok : Bool} {es : List ε} (h : ∀ e ∈ es, init? e = none) :
    (sdk init?).after (established n) (.periodicSend :: es.map .own ++ [.sent ok]) =
      some (established (if ok then 0 else n + 1)) := by
  refine Protocol.after_append (r := sending n) ?_ rfl
  exact Protocol.after_cons_eq_some_iff.mpr ⟨_, rfl, after_quiet h⟩

end Session

/-! ## What the protocol allows -/

def Event.sleep? {ε : Type} : Event ε → Option Nat
  | sleep seconds => some seconds.toNat
  | _ => none

def Event.isDial {ε : Type} : Event ε → Bool
  | returned .connect _ => true
  | _ => false

def sleeps {ε : Type} (es : List (Event ε)) : List Nat := es.filterMap Event.sleep?

@[simp] theorem sleeps_append {ε : Type} (xs ys : List (Event ε)) :
    sleeps (xs ++ ys) = sleeps xs ++ sleeps ys := List.filterMap_append

@[simp] theorem sleeps_own {ε : Type} (es : List ε) : sleeps (es.map .own) = [] := by
  rw [sleeps, List.filterMap_map, List.filterMap_eq_nil_iff]
  intro e _
  rfl

theorem sleeps_send {ε : Type} (ok : Bool) (es : List ε) :
    sleeps (.periodicSend :: es.map .own ++ [.sent ok]) = [] := by
  rw [sleeps_append, sleeps, List.filterMap_cons_none rfl]
  exact (List.append_nil _).trans (sleeps_own es)

theorem sleeps_sdk {ε : Type} (c : SdkCall) (ret : Int) (es : List ε) :
    sleeps (.call c :: es.map .own ++ [.returned c ret]) = [] := by
  rw [sleeps_append, sleeps, List.filterMap_cons_none rfl]
  exact (List.append_nil _).trans (sleeps_own es)

/-- The pauses after the first so many failures. -/
def backoff (n : Nat) : List Nat := (List.range n).map fun i => 2 ^ (i + 1)

theorem backoff_succ (n : Nat) : backoff (n + 1) = backoff n ++ [2 ^ (n + 1)] := by
  rw [backoff, List.range_succ, List.map_append]
  rfl

namespace Session

/-- The pauses and the attempts to connect that lead to a session. -/
def Logged : Session → List Nat → Nat → Prop
  | fresh, pauses, dials => pauses = [] ∧ dials = 0
  | refused, pauses, dials => pauses = [] ∧ dials = 0
  | ready n, pauses, dials => n ≤ retries ∧ pauses = backoff n ∧ dials = n
  | failing n, pauses, dials =>
    ∃ k ≤ retries, n = k + 1 ∧ pauses = backoff k ∧ dials = k + 1
  | established _, pauses, dials =>
    ∃ k ≤ retries, ∃ m, pauses = backoff k ++ List.replicate m 10 ∧ dials = k + 1
  | sending _, pauses, dials =>
    ∃ k ≤ retries, ∃ m, pauses = backoff k ++ List.replicate m 10 ∧ dials = k + 1
  | broken _, pauses, dials =>
    ∃ k ≤ retries, ∃ m, pauses = backoff k ++ List.replicate m 10 ∧ dials = k + 1
  | closed last, pauses, dials => last.Logged pauses dials
  | released last, pauses, dials => last.Logged pauses dials

section
variable {q r : Session} {pauses : List Nat} {dials : Nat}

theorem Logged.initialise {ret : Int} (h : q.Logged pauses dials)
    (hr : q.initialise ret = some r) : r.Logged pauses dials := by
  cases q with
  | fresh =>
    cases hr
    obtain ⟨rfl, rfl⟩ := h
    split
    · exact ⟨Nat.zero_le _, rfl, rfl⟩
    · exact ⟨rfl, rfl⟩
  | _ => cases hr

theorem Logged.dialed {ret : Int} (h : q.Logged pauses dials)
    (hr : q.returned .connect ret = some r) : r.Logged pauses (dials + 1) := by
  cases q with
  | ready n =>
    cases hr
    obtain ⟨hn, rfl, rfl⟩ := h
    split
    · exact ⟨dials, hn, 0, (List.append_nil _).symm, rfl⟩
    · exact ⟨dials, hn, rfl, rfl, rfl⟩
  | _ => cases hr

theorem Logged.returned {c : SdkCall} {ret : Int} (hc : c ≠ .connect)
    (h : q.Logged pauses dials) (hr : q.returned c ret = some r) : r.Logged pauses dials := by
  cases c with
  | connect => exact absurd rfl hc
  | loop l =>
    cases q with
    | established n =>
      cases hr
      split <;> exact h
    | _ => cases hr
  | disconnect =>
    cases q with
    | ready n =>
      cases n with
      | zero =>
        cases hr
        exact h
      | succ n => cases hr
    | failing n =>
      cases hr
      exact h
    | established n =>
      cases hr
      exact h
    | broken l =>
      cases hr
      exact h
    | _ => cases hr

theorem Logged.pause {seconds : UInt32} (h : q.Logged pauses dials)
    (hr : q.pause seconds = some r) : r.Logged (pauses ++ [seconds.toNat]) dials := by
  cases q with
  | failing n =>
    obtain ⟨hn, hr⟩ := Option.ite_none_right_eq_some.mp hr
    obtain ⟨k, _, rfl, rfl, rfl⟩ := h
    cases hr
    refine ⟨hn.1, ?_, rfl⟩
    rw [backoff_succ, hn.2]
  | established n =>
    obtain ⟨rfl, hr⟩ := Option.ite_none_right_eq_some.mp hr
    obtain ⟨k, hk, m, rfl, hdials⟩ := h
    cases hr
    refine ⟨k, hk, m + 1, ?_, hdials⟩
    rw [List.append_assoc, List.replicate_succ']
    rfl
  | _ => cases hr

theorem Logged.iterate {l : LoopName} (h : q.Logged pauses dials)
    (hr : q.iterate l = some r) : r.Logged pauses dials := by
  cases q with
  | failing n =>
    cases l with
    | retry =>
      cases hr
      exact h
    | _ => cases hr
  | established n =>
    cases l with
    | retry => cases hr
    | _ =>
      cases hr
      exact h
  | _ => cases hr

theorem Logged.step {ε : Type} {init? : ε → Option Int} {h : List (Event ε)} {e : Event ε}
    (hq : q.Logged (sleeps h) (h.countP Event.isDial)) (hr : sdk init? q e = some r) :
    r.Logged (sleeps (h ++ [e])) ((h ++ [e]).countP Event.isDial) := by
  simp only [sleeps, List.filterMap_append, List.countP_append] at hq ⊢
  cases e with
  | own e =>
    rw [List.filterMap_cons_none rfl, List.filterMap_nil, List.append_nil]
    simp only [sdk] at hr
    split at hr
    · cases hr
      exact hq
    · exact hq.initialise hr
  | call c =>
    rw [List.filterMap_cons_none rfl, List.filterMap_nil, List.append_nil]
    obtain ⟨_, hr⟩ := Option.ite_none_right_eq_some.mp hr
    cases hr
    exact hq
  | returned c ret =>
    rw [List.filterMap_cons_none rfl, List.filterMap_nil, List.append_nil]
    cases c with
    | connect => exact hq.dialed hr
    | loop l => exact hq.returned (by simp) hr
    | disconnect => exact hq.returned (by simp) hr
  | sleep seconds => exact hq.pause hr
  | iteration l =>
    rw [List.filterMap_cons_none rfl, List.filterMap_nil, List.append_nil]
    exact hq.iterate hr
  | periodicSend =>
    rw [List.filterMap_cons_none rfl, List.filterMap_nil, List.append_nil]
    cases q with
    | established n =>
      cases hr
      exact hq
    | _ => cases hr
  | sent ok =>
    rw [List.filterMap_cons_none rfl, List.filterMap_nil, List.append_nil]
    cases q with
    | sending n =>
      cases hr
      exact hq
    | _ => cases hr
  | deinit =>
    rw [List.filterMap_cons_none rfl, List.filterMap_nil, List.append_nil]
    cases q with
    | closed last =>
      cases hr
      exact hq
    | _ => cases hr

theorem logged_after {ε : Type} {init? : ε → Option Int} {es : List (Event ε)}
    (h : (sdk init?).after fresh es = some q) : q.Logged (sleeps es) (es.countP Event.isDial) :=
  Protocol.after_history (P := fun q h => q.Logged (sleeps h) (h.countP Event.isDial))
    (fun hq hr => hq.step hr) h (s := []) ⟨rfl, rfl⟩

/-- The pauses of any session: some that double, then those of the main loop. -/
theorem Logged.schedule (h : q.Logged pauses dials) : ∃ k ≤ retries, ∃ m,
    pauses = backoff k ++ List.replicate m 10 ∧ k ≤ dials ∧ dials ≤ k + 1 := by
  induction q with
  | fresh =>
    obtain ⟨rfl, rfl⟩ := h
    exact ⟨0, Nat.zero_le _, 0, rfl, Nat.le_refl 0, Nat.zero_le 1⟩
  | refused =>
    obtain ⟨rfl, rfl⟩ := h
    exact ⟨0, Nat.zero_le _, 0, rfl, Nat.le_refl 0, Nat.zero_le 1⟩
  | ready n =>
    obtain ⟨hn, rfl, rfl⟩ := h
    exact ⟨dials, hn, 0, (List.append_nil _).symm, Nat.le_refl _, Nat.le_succ _⟩
  | failing n =>
    obtain ⟨k, hk, _, rfl, rfl⟩ := h
    exact ⟨k, hk, 0, (List.append_nil _).symm, Nat.le_succ _, Nat.le_refl _⟩
  | established n =>
    obtain ⟨k, hk, m, rfl, rfl⟩ := h
    exact ⟨k, hk, m, rfl, Nat.le_succ _, Nat.le_refl _⟩
  | sending n =>
    obtain ⟨k, hk, m, rfl, rfl⟩ := h
    exact ⟨k, hk, m, rfl, Nat.le_succ _, Nat.le_refl _⟩
  | broken l =>
    obtain ⟨k, hk, m, rfl, rfl⟩ := h
    exact ⟨k, hk, m, rfl, Nat.le_succ _, Nat.le_refl _⟩
  | closed last ih => exact ih h
  | released last ih => exact ih h

end
end Session

/-! ## The programs that keep to it -/

variable {Pc Mem Conn Msg Env Ask ε : Type}

/-! ### Instruction by instruction -/

theorem double_toNat {i : Nat} {sleepSeconds : UInt32} (hi : i < Session.retries)
    (h : sleepSeconds.toNat = 2 ^ (i + 1)) : (sleepSeconds * 2).toNat = 2 ^ (i + 2) := by
  have hle : 2 ^ (i + 2) ≤ 2 ^ 11 := Nat.pow_le_pow_right (Nat.succ_pos 1) (Nat.succ_le_succ hi)
  have hlt : 2 ^ (i + 2) < 4294967296 := Nat.lt_of_le_of_lt hle (by decide)
  rw [UInt32.toNat_mul, h]
  exact Nat.mod_eq_of_lt hlt

theorem succ_toNat {n : UInt32} (h : n.toNat < 10) : (n + 1).toNat = n.toNat + 1 := by
  rw [UInt32.toNat_add]
  exact Nat.mod_eq_of_lt (Nat.lt_of_le_of_lt h (by decide))

namespace Session

/-- The session at the head of the first loop of `connect_to_tuya`. -/
def AtRetryHead (i : Nat) (sleepSeconds : UInt32) (ret : Int) (q : Session) : Prop :=
  i ≤ retries ∧ sleepSeconds.toNat = 2 ^ (i + 1) ∧
    q = if ret = oprtOk then established 0 else failing (i + 1)

def AtRetrySleep (i : Nat) (sleepSeconds : UInt32) (q : Session) : Prop :=
  i < retries ∧ sleepSeconds.toNat = 2 ^ (i + 1) ∧ q = failing (i + 1)

def AtRetryConnect (i : Nat) (sleepSeconds : UInt32) (q : Session) : Prop :=
  i < retries ∧ sleepSeconds.toNat = 2 ^ (i + 2) ∧ q = ready (i + 1)

/-- The session in the main loop, with the count of failed sends in a row. -/
def AtMain (sendFailCount : UInt32) (q : Session) : Prop :=
  ∃ n, q = established n ∧ sendFailCount.toNat = n ∧ n < 10

theorem atMain_zero : AtMain 0 (established 0) := ⟨0, rfl, rfl, Nat.succ_pos 9⟩

/-- Dialing is over without success: unless there was a signal, all retries were made. -/
def GaveUp (keepRunning : Bool) (q : Session) : Prop :=
  ∃ n, q = failing n ∧ (keepRunning = true → n = retries + 1)

end Session

section
variable {p : Program Pc Mem Conn Msg Env Ask ε} {init? : ε → Option Int} {expected : ε → Prop}
  {serves : State Pc Mem → Session → Prop} {s : State Pc Mem} {q r : Session}

theorem goesOn_own {t : State Pc Mem} {es : List ε}
    (hes : ∀ e ∈ es, expected e → init? e = none) (h : serves t q) :
    GoesOn (Session.sdk init?) expected serves q t (es.map .own) := by
  intro hexp
  refine ⟨q, Session.after_quiet ?_, h⟩
  exact fun e he => hes e he (hexp e (List.mem_map_of_mem he))

theorem goesOn_quiet {t : State Pc Mem} {e : ε} (he : init? e = none) (h : serves t q) :
    GoesOn (Session.sdk init?) expected serves q t [.own e] := by
  have hes : ∀ f ∈ [e], expected f → init? f = none := by
    intro f hf _
    rw [List.mem_singleton.mp hf]
    exact he
  exact goesOn_own hes h

/-- A call of the SDK that the session allows, whatever it returns. -/
theorem ensures_sdk
    (quiet : ∀ m cb m' es, p.callback m cb = some (m', es) → ∀ e ∈ es, init? e = none)
    {c : SdkCall} {next : Int → Pc}
    (h : ∀ ret, ∃ r, q.returned c ret = some r ∧
      ∀ mem, serves { s with pc := next ret, mem } r) :
    (Instr.sdk c next : Instr Pc Mem Ask ε).Ensures p s
      (GoesOn (Session.sdk init?) expected serves q) := by
  intro callbacks ret mem es hrun _
  obtain ⟨r, hr, hserves⟩ := h ret
  obtain ⟨_, hok, _⟩ := h oprtOk
  have hquiet := hrun.forall_events quiet
  exact ⟨r, Session.after_call hquiet (Option.isSome_of_eq_some hok) hr, hserves mem⟩

theorem ensures_loop
    (quiet : ∀ m cb m' es, p.callback m cb = some (m', es) → ∀ e ∈ es, init? e = none)
    {l : LoopName} {n : Nat} {fail next : Pc}
    (hfail : ∀ mem, serves { s with pc := fail, mem } (.broken l))
    (hnext : ∀ mem, serves { s with pc := next, mem } (.established n)) :
    (Instr.sdk (.loop l) fun ret => if ret ≠ oprtOk then fail else next :
      Instr Pc Mem Ask ε).Ensures p s
        (GoesOn (Session.sdk init?) expected serves (.established n)) := by
  apply ensures_sdk quiet
  intro ret
  refine ⟨_, rfl, fun mem => ?_⟩
  by_cases hret : ret = oprtOk
  · simp only [hret, ne_eq, not_true_eq_false, if_true, if_false]
    exact hnext mem
  · simp only [hret, ne_eq, not_false_eq_true, if_true, if_false]
    exact hfail mem

theorem ensures_retryHead {i : Nat} {sleepSeconds : UInt32} {ret : Int} {condition : Bool}
    {sleep fail next : Pc} (h : q.AtRetryHead i sleepSeconds ret)
    (hcond : condition = true ↔ i < Session.retries ∧ ret ≠ oprtOk)
    (hsleep : q.AtRetrySleep i sleepSeconds → serves { s with pc := sleep } q)
    (hfail : q.GaveUp s.keepRunning → serves { s with pc := fail } q)
    (hnext : q = .established 0 → serves { s with pc := next } q) :
    (Instr.test .retry condition sleep (if ret ≠ oprtOk then fail else next) :
      Instr Pc Mem Ask ε).Ensures p s (GoesOn (Session.sdk init?) expected serves q) := by
  obtain ⟨hi, hseconds, hq⟩ := h
  by_cases hret : ret = oprtOk
  · rw [if_pos hret] at hq
    rw [if_neg (not_not.mpr hret)]
    apply ensures_test
    · intro hc
      exact absurd hret (hcond.mp hc).2
    · intro _
      exact hnext hq
  · rw [if_neg hret] at hq
    rw [if_pos hret]
    apply ensures_test
    · intro hc
      exact ⟨q, hq ▸ rfl, hsleep ⟨(hcond.mp hc).1, hseconds, hq⟩⟩
    · intro hc
      refine hfail ⟨i + 1, hq, fun hk => ?_⟩
      rw [hk, Bool.and_true] at hc
      have hlast : ¬ i < Session.retries := fun hlt => by
        rw [hcond.mpr ⟨hlt, hret⟩] at hc
        cases hc
      omega

theorem ensures_retrySleep {i : Nat} {sleepSeconds : UInt32} {next : Pc}
    (h : q.AtRetrySleep i sleepSeconds)
    (hnext : ∀ r : Session, r.AtRetryConnect i (sleepSeconds * 2) →
      serves { s with pc := next } r) :
    (Instr.sleep sleepSeconds next : Instr Pc Mem Ask ε).Ensures p s
      (GoesOn (Session.sdk init?) expected serves q) := by
  obtain ⟨hi, hseconds, rfl⟩ := h
  apply ensures_sleep (r := .ready (i + 1))
  · exact if_pos ⟨hi, hseconds⟩
  · exact hnext _ ⟨hi, double_toNat hi hseconds, rfl⟩

theorem ensures_retryConnect
    (quiet : ∀ m cb m' es, p.callback m cb = some (m', es) → ∀ e ∈ es, init? e = none)
    {i : Nat} {sleepSeconds : UInt32} {next : Int → Pc} (h : q.AtRetryConnect i sleepSeconds)
    (hnext : ∀ ret (r : Session), r.AtRetryHead (i + 1) sleepSeconds ret →
      ∀ mem, serves { s with pc := next ret, mem } r) :
    (Instr.sdk .connect next : Instr Pc Mem Ask ε).Ensures p s
      (GoesOn (Session.sdk init?) expected serves q) := by
  obtain ⟨hi, hseconds, rfl⟩ := h
  apply ensures_sdk quiet
  exact fun ret => ⟨_, rfl, hnext ret _ ⟨hi, hseconds, rfl⟩⟩

theorem ensures_connect
    (quiet : ∀ m cb m' es, p.callback m cb = some (m', es) → ∀ e ∈ es, init? e = none)
    {next : Int → Pc} (hnext : ∀ ret (r : Session), r.AtRetryHead 0 2 ret →
      ∀ mem, serves { s with pc := next ret, mem } r) :
    (Instr.sdk .connect next : Instr Pc Mem Ask ε).Ensures p s
      (GoesOn (Session.sdk init?) expected serves (.ready 0)) := by
  apply ensures_sdk quiet
  exact fun ret => ⟨_, rfl, hnext ret _ ⟨Nat.zero_le _, rfl, rfl⟩⟩

theorem ensures_mainSend
    (quiet : ∀ env m ok m' es, p.send env m = some (ok, m', es) → ∀ e ∈ es, init? e = none)
    {sendFailCount : UInt32} {fail failed sent : Pc} (h : q.AtMain sendFailCount)
    (hfail : ∀ mem, serves { s with pc := fail, mem } (.established 10))
    (hfailed : ∀ r : Session, r.AtMain (sendFailCount + 1) →
      ∀ mem, serves { s with pc := failed, mem } r)
    (hsent : ∀ r : Session, r.AtMain 0 → ∀ mem, serves { s with pc := sent, mem } r) :
    (Instr.send fun ok => if !ok then if sendFailCount + 1 = 10 then fail else failed else sent :
      Instr Pc Mem Ask ε).Ensures p s (GoesOn (Session.sdk init?) expected serves q) := by
  obtain ⟨n, rfl, hn, hlt⟩ := h
  intro env ok mem es hsend _
  refine ⟨_, Session.after_send (quiet _ _ _ _ _ hsend), ?_⟩
  have hsucc : (sendFailCount + 1).toNat = n + 1 := by rw [succ_toNat (hn ▸ hlt), hn]
  cases ok with
  | true => exact hsent _ Session.atMain_zero mem
  | false =>
    by_cases hten : sendFailCount + 1 = 10
    · simp only [Bool.not_false, Bool.false_eq_true, if_true, if_false, hten]
      rw [hten] at hsucc
      have hlast : 10 = n + 1 := hsucc
      exact hlast ▸ hfail mem
    · simp only [Bool.not_false, Bool.false_eq_true, if_true, if_false, hten]
      have hne : n + 1 ≠ 10 := by
        intro heq
        apply hten
        apply UInt32.toNat_inj.mp
        rw [hsucc, heq]
        rfl
      exact hfailed _ ⟨n + 1, rfl, hsucc, by omega⟩ mem

end

end TuyaDaemon.Daemon
