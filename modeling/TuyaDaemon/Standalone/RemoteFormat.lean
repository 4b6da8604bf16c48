import TuyaDaemon.LoopVerdict
import TuyaDaemon.Standalone.PropertySet
import TuyaDaemon.Standalone.TimeReport

/-!
# Remote formats and the main loop

A `PROPERTY_SET` message installs any string as the format, and a format whose expansion is
empty or too long makes every send fail. What the main loop then does depends on the
formats in force in its last ten turns.
-/

namespace TuyaDaemon.Standalone

set_option autoImplicit false

open Daemon EventMachine FailureRun

section Callbacks
variable {Tm : Type} (lib : Strftime Tm)

/-- `cJSON_Parse` accepts the data of a `PROPERTY_SET` message, as an object. -/
def ObjectPayload : Callback (TimeEnv Tm) Decoder → Prop
  | .onMessages msg decode => msg.type = .propertySet →
    ∃ members, msg.dataString.bind decode = some (.object members)
  | _ => True

def installed (format : CString) : Callback (TimeEnv Tm) Decoder → CString
  | .onMessages msg decode =>
    match msg.type, msg.dataString.bind decode with
    | .propertySet, some (.object members) => (adopted members).getD format
    | _, _ => format
  | _ => format

theorem callback_total {m : Memory} {cb : Callback (TimeEnv Tm) Decoder}
    {linked : Bool} (hl : cb.link m.linked = some linked) (hp : ObjectPayload cb) :
    ∃ m' es, callback lib m cb = some (m', es) ∧ m'.linked = linked ∧
      m'.format.format.text = installed m.format.format.text cb := by
  unfold callback
  rw [hl]
  cases cb with
  | onConnected env =>
    obtain ⟨ret, es, hsend, _⟩ := sendCurrentTime_outcome lib env m.format.format.text
    exact ⟨{ m with linked }, .onConnected :: es, by simp only [hsend], rfl, rfl⟩
  | onDisconnect => exact ⟨_, _, rfl, rfl, rfl⟩
  | onMessages msg decode =>
    cases htype : msg.type with
    | propertySet =>
      obtain ⟨members, hmembers⟩ := hp htype
      obtain ⟨d, next, es, hset, htext⟩ := propertySet_object hmembers m.format m.next
      refine ⟨⟨linked, d, next⟩, .onMessages :: es, ?_, rfl, ?_⟩
      · simp only [onMessages, htype, hset]
      · simp only [installed, htype, hmembers, htext]
    | _ =>
      refine ⟨⟨linked, m.format, m.next⟩, [.onMessages], ?_, rfl, ?_⟩
      · simp only [onMessages, htype]
        rfl
      · simp only [installed, htype]

theorem callbacks_total {m : Memory}
    {cbs : List (Callback (TimeEnv Tm) Decoder)} {linked : Bool}
    (hl : links m.linked cbs = some linked) (hp : ∀ cb ∈ cbs, ObjectPayload cb) :
    ∃ m' es, exec (callback lib) m cbs = some (m', es) ∧ m'.linked = linked ∧
      m'.format.format.text = cbs.foldl installed m.format.format.text := by
  induction cbs generalizing m with
  | nil => exact ⟨m, [], rfl, Option.some.inj hl, rfl⟩
  | cons cb cbs ih =>
    simp only [links] at hl
    split at hl
    · cases hl
    · rename_i next hnext
      obtain ⟨m₁, es₁, hcb, hlink, htext⟩ :=
        callback_total lib hnext (hp cb List.mem_cons_self)
      rw [← hlink] at hl
      obtain ⟨m₂, es₂, hcbs, hlink', htext'⟩ :=
        ih hl (fun c hc => hp c (List.mem_cons_of_mem cb hc))
      refine ⟨m₂, es₁ ++ es₂, ?_, hlink', ?_⟩
      · simp only [exec, hcb, hcbs]
      · rw [htext', htext]
        rfl

end Callbacks

section Turns
variable {Tm : Type} (lib : Strftime Tm)
  (turns : Nat → Turn (TimeEnv Tm) Decoder (TimeEnv Tm)) (format : CString)

/-- The format after the callbacks of the first `n` turns. -/
def formatAfter : Nat → CString
  | 0 => format
  | n + 1 => (turns n).callbacks.foldl installed (formatAfter n)

/-- The expansion that turn `n` has to report, or none if there is no local time. -/
def expansionAt (n : Nat) : Option CString :=
  (turns n).env.now.map (lib.expansion (formatAfter turns format (n + 1)))

/-- The expansion of the format in force in turn `n` is neither empty nor too long. -/
def FitsAt (n : Nat) : Prop := ∃ s, expansionAt lib turns format n = some s ∧ Fits s

/-- Turns in which nothing but the formats can go wrong: `tuya_mqtt_loop` succeeds, there is
a local time, no report is refused, and every `PROPERTY_SET` message carries an object, in a
text that `cJSON_Parse` accepts. -/
structure Benign (linked : Nat → Bool) : Prop where
  loop_ok : ∀ n, (turns n).loopResult = oprtOk
  clock : ∀ n, (turns n).env.now.isSome = true
  report : ∀ n msg, 0 ≤ (turns n).env.report msg
  payload : ∀ n, ∀ cb ∈ (turns n).callbacks, ObjectPayload cb
  link : ∀ n, links (linked n) (turns n).callbacks = some (linked (n + 1))

def outcomes (n : Nat) : LoopOutcome where
  keepRunning := (turns n).keepRunning
  loopResult := oprtOk
  sent := (expansionAt lib turns format n).any fun s => decide (Fits s)

theorem sent_eq_true_iff (n : Nat) :
    (outcomes lib turns format n).sent = true ↔ FitsAt lib turns format n := by
  simp [outcomes, FitsAt, Option.any_eq_true]

def atHead : Pc → Bool
  | .mainHead _ => true
  | _ => false

/-- The main loop over the turns, from a memory `m` at its first head. -/
def loopState (m : Memory) (n : Nat) : Option (State Pc Memory) :=
  afterTurns (program lib) atHead turns ⟨.mainHead 0, true, m⟩ n

variable {turns} {linked : Nat → Bool}

theorem Benign.sent (hb : Benign turns linked) (n : Nat) {m : Memory}
    (hm : m.format.format.text = formatAfter turns format (n + 1)) :
    ∃ ret es, sendCurrentTime lib (turns n).env m.format.format.text = .ok (ret, es) ∧
      (ret == 0) = (outcomes lib turns format n).sent := by
  obtain ⟨tm, htm⟩ := Option.isSome_iff_exists.mp (hb.clock n)
  have hexp : expansionAt lib turns format n =
      some (lib.expansion m.format.format.text tm) := by rw [expansionAt, htm, hm]; rfl
  by_cases hs : Fits (lib.expansion m.format.format.text tm)
  · have hneg := Int.not_lt.mpr (hb.report n (reportText (lib.expansion m.format.format.text tm)))
    refine ⟨_, _, sendCurrentTime_of_fits lib _ htm hs, ?_⟩
    simp [outcomes, hexp, hs, hneg]
  · obtain ⟨ret, hret, hsend⟩ := sendCurrentTime_of_not_fits lib _ htm hs
    refine ⟨ret, _, hsend, ?_⟩
    simp [outcomes, hexp, hs]
    omega

theorem keepRunning_of_head {o : LoopOutcome} {c c' : UInt32}
    (h : mainLoopTurn o c = .head c') : o.keepRunning = true := by
  cases hk : o.keepRunning with
  | true => rfl
  | false => simp [mainLoopTurn, hk] at h

/-- The program runs the turns as the loop of `mainLoop` does, and tracks the format. -/
theorem loopState_eq (hb : Benign turns linked) {m : Memory} (hm : m.linked = linked 0)
    (hf : m.format.format.text = format) (n : Nat) :
    ∃ s, loopState lib turns m n = some s ∧
      s.pc = statusPc (Standalone.mainLoop (outcomes lib turns format) n) ∧
      ∀ c, Standalone.mainLoop (outcomes lib turns format) n = .head c →
        s.keepRunning = true ∧ s.mem.linked = linked n ∧
          s.mem.format.format.text = formatAfter turns format n := by
  induction n with
  | zero => exact ⟨_, rfl, rfl, fun _ _ => ⟨rfl, hm, hf⟩⟩
  | succ n ih =>
    obtain ⟨s, hs, hpc, hhead⟩ := ih
    simp only [loopState] at hs ⊢
    simp only [afterTurns, hs, Standalone.mainLoop]
    cases hstatus : Standalone.mainLoop (outcomes lib turns format) n with
    | left success =>
      refine ⟨s, ?_, ?_, ?_⟩
      · rw [hpc, hstatus]
        cases success <;> rfl
      · rw [hpc, hstatus]
      · intro c hc
        cases hc
    | head c =>
      obtain ⟨hk, hlinked, htext⟩ := hhead c hstatus
      have hs' : s = ⟨.mainHead c, true, s.mem⟩ := by
        rw [hstatus] at hpc
        cases s
        simp_all [statusPc]
      obtain ⟨m', es, hexec, hlinked', htext'⟩ := callbacks_total lib (hlinked ▸ hb.link n)
        (hb.payload n)
      rw [htext] at htext'
      obtain ⟨ret, es', hsend, hret⟩ := hb.sent lib format n htext'
      have hturn := exec_turn lib (turns n) c hexec hsend
      have hround : (⟨(turns n).keepRunning, (turns n).loopResult, ret == 0⟩ : LoopOutcome) =
          outcomes lib turns format n := by rw [hb.loop_ok n, hret]; rfl
      rw [hround] at hturn
      refine ⟨⟨statusPc (mainLoopTurn (outcomes lib turns format n) c), (turns n).keepRunning,
        if (turns n).keepRunning then m' else s.mem⟩, ?_, rfl, ?_⟩
      · rw [hs']
        exact hturn
      · intro c' hc'
        have hkeep := keepRunning_of_head hc'
        have hkeep' : (turns n).keepRunning = true := hkeep
        rw [if_pos hkeep']
        exact ⟨hkeep', hlinked', htext'⟩

/-- Some window of ten turns, all entered, in which no expansion fits. -/
def TenMisfits (turns : Nat → Turn (TimeEnv Tm) Decoder (TimeEnv Tm)) : Prop :=
  ∃ n, 9 ≤ n ∧ (∀ k, k ≤ n → (turns k).keepRunning = true) ∧
    ∀ j, n - 9 ≤ j → j ≤ n → ¬ FitsAt lib turns format j

theorem ever_fails_iff_tenMisfits :
    (∃ n, Standalone.mainLoop (outcomes lib turns format) n = .left false) ↔
      TenMisfits lib format turns := by
  rw [ever_fails_iff]
  refine exists_congr fun n => ?_
  have hsent (j : Nat) : (outcomes lib turns format j).sent = false ↔
      ¬ FitsAt lib turns format j := by
    rw [← sent_eq_true_iff, Bool.not_eq_true]
  have hfatal : FatalTurn (outcomes lib turns format) n ↔
      9 ≤ n ∧ ∀ j, n - 9 ≤ j → j ≤ n → ¬ FitsAt lib turns format j := by
    simp only [FatalTurn, hsent]
    exact or_iff_right fun h => h rfl
  rw [hfatal]
  constructor
  · intro ⟨⟨h9, hall⟩, hk⟩
    exact ⟨h9, hk, hall⟩
  · intro ⟨h9, hk, hall⟩
    exact ⟨⟨h9, hall⟩, hk⟩

/-- The main loop survives exactly when there are no ten turns in a row whose formats all
expand to nothing or to too much; until then it is only left on a stop signal. -/
theorem survives_iff (hb : Benign turns linked) {m : Memory} (hm : m.linked = linked 0) :
    (∀ n, ∃ s, loopState lib turns m n = some s) ∧
      ((∀ n s, loopState lib turns m n = some s → s.pc ≠ .cleanup exitFailure) ↔
        ¬ TenMisfits lib m.format.format.text turns) := by
  have heq := loopState_eq lib m.format.format.text hb hm rfl
  refine ⟨fun n => ?_, ?_⟩
  · obtain ⟨s, hs, _⟩ := heq n
    exact ⟨s, hs⟩
  · rw [← ever_fails_iff_tenMisfits, not_exists]
    refine forall_congr' fun n => ?_
    obtain ⟨s, hs, hpc, _⟩ := heq n
    have hleft (status : LoopStatus) :
        statusPc status = .cleanup exitFailure ↔ status = .left false := by
      cases status with
      | head c => simp [statusPc]
      | left success => cases success <;> simp [statusPc, exitFailure, exitSuccess]
    constructor
    · intro h hstatus
      exact h s hs (hpc.trans ((hleft _).mpr hstatus))
    · intro h t ht hfail
      rw [hs] at ht
      obtain rfl := Option.some.inj ht
      exact h ((hleft _).mp (hpc.symm.trans hfail))

end Turns

abbrev PlainTurn := Turn (TimeEnv Unit) Decoder (TimeEnv Unit)

def emptyText : CString := cstr "\x7b\"date_time_format\":\"\"\x7d"

def emptyDecode : Decoder :=
  .ofTable [(emptyText, .object [(cstr "date_time_format", .string [])])] rfl

def emptyMessage : Callback (TimeEnv Unit) Decoder :=
  .onMessages ⟨.propertySet, some emptyText⟩ emptyDecode

def timeText : CString := cstr "\x7b\"date_time_format\":\"%T\"\x7d"

def timeDecode : Decoder :=
  .ofTable [(timeText, .object [(cstr "date_time_format", .string (cstr "%T"))])] (by decide)

def timeMessage : Callback (TimeEnv Unit) Decoder :=
  .onMessages ⟨.propertySet, some timeText⟩ timeDecode

/-- Turns in which nothing happens but that messages arrive. -/
def receiving (messages : Nat → List (Callback (TimeEnv Unit) Decoder)) (n : Nat) : PlainTurn :=
  ⟨true, messages n, oprtOk, workingClock⟩

theorem benign_receiving {messages : Nat → List (Callback (TimeEnv Unit) Decoder)}
    (h : ∀ n, messages n = [] ∨ messages n = [emptyMessage] ∨ messages n = [timeMessage]) :
    Benign (receiving messages) fun _ => true where
  loop_ok _ := rfl
  clock _ := rfl
  report _ _ := Int.one_nonneg
  payload n cb hcb := by
    simp only [receiving] at hcb
    rcases h n with hn | hn | hn
    · rw [hn] at hcb
      cases hcb
    · rw [hn] at hcb
      obtain rfl := List.mem_singleton.mp hcb
      exact fun _ => ⟨_, rfl⟩
    · rw [hn] at hcb
      obtain rfl := List.mem_singleton.mp hcb
      exact fun _ => ⟨_, rfl⟩
  link n := by
    simp only [receiving]
    rcases h n with hn | hn | hn <;> rw [hn] <;> rfl

/-- An empty format in the first turn, and a format that works five turns later. -/
def emptyThenTime : Nat → List (Callback (TimeEnv Unit) Decoder)
  | 0 => [emptyMessage]
  | 5 => [timeMessage]
  | _ => []

theorem benign_emptyThenTime : Benign (receiving emptyThenTime) fun _ => true := by
  apply benign_receiving
  intro n
  unfold emptyThenTime
  split <;> simp

theorem formatAfter_emptyThenTime (n : Nat) :
    formatAfter (receiving emptyThenTime) (cstr "%F %T%z") (n + 6) = cstr "%T" := by
  induction n with
  | zero => decide +kernel
  | succ n ih => exact ih

/-- Two messages, the first with an empty format, do not stop the main loop. -/
theorem survives_iff_emptyThenTime : ¬ ∃ n s,
    loopState plainStrftime (receiving emptyThenTime) ⟨true, initialFormat, 1⟩ n = some s ∧
      s.pc = .cleanup exitFailure := by
  rintro ⟨n, s, hs, hfail⟩
  refine (survives_iff plainStrftime benign_emptyThenTime rfl).2.mpr ?_ n s hs hfail
  rintro ⟨k, hk, _, hmisfit⟩
  apply hmisfit k (Nat.sub_le k 9) (Nat.le_refl k)
  refine ⟨expandPlain (cstr "%T"), ?_, by decide⟩
  have hformat : formatAfter (receiving emptyThenTime) (cstr "%F %T%z") (k + 1) = cstr "%T" := by
    have hlate := formatAfter_emptyThenTime (k - 5)
    rwa [show k - 5 + 6 = k + 1 by omega] at hlate
  change expansionAt plainStrftime (receiving emptyThenTime) (cstr "%F %T%z") k = _
  rw [expansionAt, hformat]
  rfl

/-- An empty format in the first turn, and nothing after that. -/
def emptyOnly : Nat → List (Callback (TimeEnv Unit) Decoder)
  | 0 => [emptyMessage]
  | _ => []

theorem benign_emptyOnly : Benign (receiving emptyOnly) fun _ => true := by
  apply benign_receiving
  intro n
  unfold emptyOnly
  split <;> simp

/-- One message with an empty format stops the daemon in its tenth turn. -/
theorem not_survives_emptyFormat :
    ¬ ∀ (turns : Nat → PlainTurn) (linked : Nat → Bool) (m : Memory), Benign turns linked →
      m.linked = linked 0 → ∀ n s, loopState plainStrftime turns m n = some s →
        s.pc ≠ .cleanup exitFailure := by
  intro h
  have hpc : (loopState plainStrftime (receiving emptyOnly) ⟨true, initialFormat, 1⟩ 10).map
      (·.pc) = some (.cleanup exitFailure) := by decide +kernel
  obtain ⟨s, hs, hfail⟩ := Option.map_eq_some_iff.mp hpc
  exact h (receiving emptyOnly) (fun _ => true) _ benign_emptyOnly rfl 10 s hs hfail

end TuyaDaemon.Standalone
