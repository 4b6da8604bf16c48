import TuyaDaemon.Daemon

/-!
# What is left to do once the flag is down

With `keep_running` at 0 no loop head lets a daemon in, so the program points fall
into phases that are passed in one direction only. `Phase.next` and `Phase.work` are that
order; a daemon that follows it owes the calls in `Phase.tails` and nothing else.
-/

namespace TuyaDaemon.Daemon

set_option autoImplicit false

open EventMachine

/-- The calls and loop iterations that a stop signal is to bound. -/
inductive Work where
  | iteration
  | connect
  | loop
  | send
  | disconnect
  | deinit
  deriving DecidableEq, Repr

def SdkCall.work : SdkCall → Work
  | connect => .connect
  | loop _ => .loop
  | disconnect => .disconnect

def Event.work? {ε : Type} : Event ε → Option Work
  | iteration _ => some .iteration
  | call c => some c.work
  | periodicSend => some .send
  | deinit => some .deinit
  | _ => none

def works {ε : Type} (es : List (Event ε)) : List Work := es.filterMap Event.work?

@[simp] theorem works_append {ε : Type} (xs ys : List (Event ε)) :
    works (xs ++ ys) = works xs ++ works ys := List.filterMap_append

@[simp] theorem works_map_own {ε : Type} (es : List ε) : works (es.map .own) = [] := by
  simp [works, List.filterMap_map, Function.comp_def, Event.work?]

@[simp] theorem works_call {ε : Type} (c : SdkCall) (es : List (Event ε)) :
    works (.call c :: es) = c.work :: works es := rfl

@[simp] theorem works_returned {ε : Type} (c : SdkCall) (ret : Int) (es : List (Event ε)) :
    works (.returned c ret :: es) = works es := rfl

@[simp] theorem works_periodicSend {ε : Type} (es : List (Event ε)) :
    works (.periodicSend :: es) = .send :: works es := rfl

@[simp] theorem works_sent {ε : Type} (ok : Bool) (es : List (Event ε)) :
    works (.sent ok :: es) = works es := rfl

@[simp] theorem works_nil {ε : Type} : works ([] : List (Event ε)) = [] := rfl

inductive Phase where
  | starting
  | opening
  | connecting
  | backoff
  | retryHead
  | setupAsk
  | setupHead
  | setupLoop
  | mainHead
  | mainLoop
  | mainSleep
  | mainSend
  | closing
  | deinit
  | cleanup
  | done
  deriving DecidableEq, Repr

namespace Phase

/-- Where a phase leads while the flag is down. -/
def next : Phase → List Phase
  | starting => []
  | opening => [connecting, closing]
  | connecting => [retryHead]
  | backoff => [connecting]
  | retryHead => [setupAsk, setupHead, closing]
  | setupAsk => [setupHead, mainHead]
  | setupHead => [mainHead]
  | setupLoop => [setupAsk, setupHead, closing]
  | mainHead => [closing]
  | mainLoop => [mainSleep, closing]
  | mainSleep => [mainSend]
  | mainSend => [mainHead, closing]
  | closing => [deinit]
  | deinit => [cleanup]
  | cleanup => [done]
  | done => []

def work : Phase → List Work
  | connecting => [.connect]
  | setupLoop => [.loop]
  | mainLoop => [.loop]
  | mainSend => [.send]
  | closing => [.disconnect]
  | deinit => [.deinit]
  | _ => []

/-- Everything that can still be done from a phase on, up to the end. -/
def tails : Phase → List (List Work)
  | starting => []
  | opening => [[.connect, .disconnect, .deinit], [.disconnect, .deinit]]
  | connecting => [[.connect, .disconnect, .deinit]]
  | backoff => [[.connect, .disconnect, .deinit]]
  | setupLoop => [[.loop, .disconnect, .deinit]]
  | mainLoop => [[.loop, .disconnect, .deinit], [.loop, .send, .disconnect, .deinit]]
  | mainSleep => [[.send, .disconnect, .deinit]]
  | mainSend => [[.send, .disconnect, .deinit]]
  | deinit => [[.deinit]]
  | cleanup => [[]]
  | done => [[]]
  | _ => [[.disconnect, .deinit]]

def rank : Phase → Nat
  | starting => 0
  | opening => 10
  | connecting => 8
  | backoff => 9
  | retryHead => 7
  | setupAsk => 6
  | setupHead => 5
  | setupLoop => 7
  | mainHead => 4
  | mainLoop => 7
  | mainSleep => 6
  | mainSend => 5
  | closing => 3
  | deinit => 2
  | cleanup => 1
  | done => 0

/-- The MQTT context is initialised and not yet disconnected. -/
def opened : Phase → Bool
  | starting => false
  | deinit => false
  | cleanup => false
  | done => false
  | _ => true

theorem rank_lt {a b : Phase} (h : b ∈ a.next) : b.rank < a.rank := by
  revert h b
  cases a <;> decide

theorem tails_next {a b : Phase} (h : b ∈ a.next) {w : List Work} (hw : w ∈ b.tails) :
    a.work ++ w ∈ a.tails := by
  have hall : ∀ b ∈ a.next, ∀ w ∈ b.tails, a.work ++ w ∈ a.tails := by cases a <;> decide
  exact hall b h w hw

theorem ne_starting_of_mem_next {a b : Phase} (h : b ∈ a.next) : b ≠ .starting := by
  revert h b
  cases a <;> decide

end Phase

variable {Pc Mem Conn Msg Env Ask ε : Type}

/-- The instruction does the work of the phase and leads where the phase leads. -/
def Conforms (phase : Pc → Phase) (a : Phase) : Instr Pc Mem Ask ε → Prop
  | .test _ _ _ leave => a.work = [] ∧ phase leave ∈ a.next
  | .sleep _ next => a.work = [] ∧ phase next ∈ a.next
  | .sdk c next => a.work = [c.work] ∧ ∀ ret, phase (next ret) ∈ a.next
  | .send next => a.work = [.send] ∧ ∀ ok, phase (next ok) ∈ a.next
  | .ask next => a.work = [] ∧
      ∀ q m pc m' es, next q m = some (pc, m', es) → phase pc ∈ a.next
  | .deinit next => a.work = [.deinit] ∧ phase next ∈ a.next
  | .exit => a = .done

structure Schedule (p : Program Pc Mem Conn Msg Env Ask ε) where
  phase : Pc → Phase
  conforms : ∀ pc, phase pc ≠ .starting → Conforms phase (phase pc) (p.instr pc)

namespace Schedule
variable {p : Program Pc Mem Conn Msg Env Ask ε} (sch : Schedule p) {s t : State Pc Mem}
  {i : Input Conn Msg Env Ask} {es : List (Event ε)}

theorem moves (hs : sch.phase s.pc ≠ .starting) (hk : s.keepRunning = false)
    (hi : i.isSignal = false) (h : step p s i = some (t, es)) :
    sch.phase t.pc ∈ (sch.phase s.pc).next ∧ works es = (sch.phase s.pc).work := by
  have hc := sch.conforms s.pc hs
  cases transition_of_step h with
  | signal => cases hi
  | enter _ _ hk' => rw [hk] at hk'; cases hk'
  | leave hinstr _ =>
    rw [hinstr] at hc
    exact ⟨hc.2, hc.1.symm⟩
  | sleep hinstr =>
    rw [hinstr] at hc
    exact ⟨hc.2, hc.1.symm⟩
  | sdk hinstr _ =>
    rw [hinstr] at hc
    exact ⟨hc.2 _, by simp [hc.1]⟩
  | send hinstr _ =>
    rw [hinstr] at hc
    exact ⟨hc.2 _, by simp [hc.1]⟩
  | ask hinstr hask =>
    rw [hinstr] at hc
    exact ⟨hc.2 _ _ _ _ _ hask, by rw [works_map_own, hc.1]⟩
  | deinit hinstr =>
    rw [hinstr] at hc
    exact ⟨hc.2, hc.1.symm⟩

/-- The flag is down and the MQTT context has been initialised. -/
def Stopping (s : State Pc Mem) : Prop := s.keepRunning = false ∧ sch.phase s.pc ≠ .starting

def Owes (s : State Pc Mem) (w : List Work) : Prop := w ∈ (sch.phase s.pc).tails

variable {sch}

/-- A step while the flag is down: a second signal changes nothing, and everything else
moves on to the next phase and does the work of this one. -/
theorem Stopping.step_cases (hs : sch.Stopping s) (h : step p s i = some (t, es)) :
    (i.isSignal = true ∧ t = s ∧ es = []) ∨
      (i.isSignal = false ∧ t.keepRunning = false ∧
        sch.phase t.pc ∈ (sch.phase s.pc).next ∧ works es = (sch.phase s.pc).work) := by
  cases hi : i.isSignal with
  | true =>
    cases i with
    | signal =>
      obtain ⟨rfl, rfl⟩ := Prod.mk.inj (Option.some.inj h)
      refine Or.inl ⟨rfl, ?_, rfl⟩
      rw [← hs.1]
    | _ => cases hi
  | false =>
    refine Or.inr ⟨rfl, ?_, sch.moves hs.2 hs.1 hi h⟩
    cases transition_of_step h <;> first
      | rfl
      | exact hs.1

theorem Stopping.keep (hs : sch.Stopping s) (h : step p s i = some (t, es)) :
    sch.Stopping t := by
  rcases hs.step_cases h with ⟨_, rfl, _⟩ | ⟨_, hk, hnext, _⟩
  · exact hs
  · exact ⟨hk, Phase.ne_starting_of_mem_next hnext⟩

theorem Stopping.back (hs : sch.Stopping s) (h : step p s i = some (t, es))
    {w : List Work} (hw : sch.Owes t w) : sch.Owes s (works es ++ w) := by
  rcases hs.step_cases h with ⟨_, rfl, rfl⟩ | ⟨_, _, hnext, hwork⟩
  · exact hw
  · rw [hwork]
    exact Phase.tails_next hnext hw

theorem Stopping.drop (hs : sch.Stopping s) (h : step p s i = some (t, es)) :
    (if !i.isSignal then 1 else 0) + (sch.phase t.pc).rank ≤ (sch.phase s.pc).rank := by
  rcases hs.step_cases h with ⟨hi, rfl, _⟩ | ⟨hi, _, hnext, _⟩
  · simp [hi]
  · have hlt := Phase.rank_lt hnext
    simp only [hi, Bool.not_false, if_true]
    omega

section Runs
variable {is : List (Input Conn Msg Env Ask)} (hs : sch.Stopping s)
  (run : Run (step p) s is es t)
include hs run

/-- What a run does after the signal is the beginning of one of the tails. -/
theorem Stopping.owes {w : List Work} (hw : sch.Owes t w) : sch.Owes s (works es ++ w) := by
  refine Run.continuation Stopping.keep ?_ run hs hw
  intro s i t es w hs h hw
  exact hs.back h hw

/-- What a run that got to the end has done is one of the tails. -/
theorem Stopping.ends (hd : sch.phase t.pc = .done) : works es ∈ (sch.phase s.pc).tails := by
  have hnil : sch.Owes t [] := by
    rw [Owes, hd]
    exact List.mem_cons_self
  have h := hs.owes run hnil
  rwa [List.append_nil] at h

end Runs

end Schedule
end TuyaDaemon.Daemon
