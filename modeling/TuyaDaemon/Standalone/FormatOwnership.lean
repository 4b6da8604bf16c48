import Mathlib.Algebra.Order.Group.Multiset
import Mathlib.Data.List.Pairwise
import TuyaDaemon.Standalone.PropertySet
import TuyaDaemon.Standalone.TimeReport

/-!
# Who owns the date format

Every string of a parse tree is freed once: by `cJSON_Delete`, or, if `on_messages` has taken
it out of the tree, by the next `set_date_time_format` or by `free_date_time_format`. The
effects are the ledger: `parse` enters the strings of a tree, `delete` and `free` strike them
off. The balance of one call carries over to every sequence of calls.
-/

namespace TuyaDaemon.Standalone

set_option autoImplicit false

open EventMachine

/-- The calls that use the format or change it. -/
inductive FormatCall (Tm : Type) where
  | onMessages (msg : TuyalinkMessage) (decode : Decoder)
  | sendCurrentTime (env : TimeEnv Tm)

structure FormatState where
  format : DateTimeFormat
  next : Nat
  deriving DecidableEq, Repr

namespace FormatCall
variable {Tm : Type}

/-- The data of a `PROPERTY_SET` message is a JSON object, in a text that `cJSON_Parse` accepts. -/
def CarriesObject : FormatCall Tm → Prop
  | onMessages msg decode => msg.type = .propertySet →
    ∃ members, msg.dataString.bind decode = some (.object members)
  | sendCurrentTime _ => True

/-- The format that the call accepts, if it is an accepted message. -/
def accepted : FormatCall Tm → Option CString
  | onMessages msg decode => received decode msg
  | sendCurrentTime _ => none

end FormatCall

/-- One call. A handler that faults has no step. -/
def formatCall {Tm : Type} (lib : Strftime Tm) : Step FormatState (FormatCall Tm) Effect :=
  fun s call =>
    match call with
    | .onMessages msg decode =>
      match onMessages decode msg s.format s.next with
      | .error _ => none
      | .ok (format, next, es) => some (⟨format, next⟩, es)
    | .sendCurrentTime env =>
      match sendCurrentTime lib env s.format.format.text with
      | .error _ => none
      | .ok (_, es) => some (s, es)

/-! The ledger. -/

def Effect.made : Effect → List HeapString
  | parse made => made
  | _ => []

def Effect.freed : Effect → List HeapString
  | delete freed => freed
  | free (.heap p) => [p]
  | _ => []

/-- The strings of every tree that was parsed. -/
def made (es : List Effect) : List HeapString := es.flatMap Effect.made

/-- The strings that were freed, one entry for each time. -/
def freed (es : List Effect) : List HeapString := es.flatMap Effect.freed

/-- The string that `free_date_time_format` would free. -/
def held : DateTimeFormat → List HeapString
  | ⟨true, .heap p⟩ => [p]
  | _ => []

theorem made_append (es fs : List Effect) : made (es ++ fs) = made es ++ made fs :=
  List.flatMap_append

theorem freed_append (es fs : List Effect) : freed (es ++ fs) = freed es ++ freed fs :=
  List.flatMap_append

theorem made_freeDateTimeFormat (d : DateTimeFormat) : made (freeDateTimeFormat d) = [] := by
  unfold freeDateTimeFormat
  split <;> rfl

theorem freed_freeDateTimeFormat (d : DateTimeFormat) :
    freed (freeDateTimeFormat d) = held d := by
  obtain ⟨shouldFree, format⟩ := d
  cases shouldFree <;> cases format <;> rfl

theorem made_discard (next : Nat) (j : Json) :
    made (discard next j) = (CJson.build none next j).1.strings := by
  simp [made, discard, Effect.made]

theorem freed_discard (next : Nat) (j : Json) :
    freed (discard next j) = (CJson.build none next j).1.strings := by
  simp [freed, discard, Effect.freed]

/-- The effects of an accepted message, up to the strings of the tree. -/
def adopt (d : DateTimeFormat) (all rest : List HeapString) : List Effect :=
  .parse all :: freeDateTimeFormat d ++ [.delete rest]

theorem made_adopt (d : DateTimeFormat) (all rest : List HeapString) :
    made (adopt d all rest) = all := by
  have hfree := made_freeDateTimeFormat d
  simp only [made] at hfree
  simp [made, adopt, Effect.made, hfree]

theorem freed_adopt (d : DateTimeFormat) (all rest : List HeapString) :
    freed (adopt d all rest) = held d ++ rest := by
  have hfree := freed_freeDateTimeFormat d
  simp only [freed] at hfree
  simp [freed, adopt, Effect.freed, hfree]

section Calls
variable {Tm : Type} {lib : Strftime Tm} {s t : FormatState} {call : FormatCall Tm}
  {es : List Effect}

theorem onMessages_total {msg : TuyalinkMessage} {decode : Decoder}
    (h : msg.type = .propertySet → ∃ members, msg.dataString.bind decode = some (.object members))
    (d : DateTimeFormat) (next : Nat) : ∃ r, onMessages decode msg d next = .ok r := by
  by_cases htype : msg.type = .propertySet
  · obtain ⟨members, hmembers⟩ := h htype
    obtain ⟨d', next', es, hrun, _⟩ := propertySet_object hmembers d next
    exact ⟨(d', next', es), by simp only [onMessages, htype, hrun]⟩
  · exact ⟨(d, next, []), (onMessages_of_other htype d next).2⟩

theorem formatCall_total (lib : Strftime Tm) (s : FormatState) (call : FormatCall Tm)
    (h : call.CarriesObject) : ∃ t es, formatCall lib s call = some (t, es) := by
  cases call with
  | onMessages msg decode =>
    obtain ⟨⟨d, next, es⟩, hrun⟩ := onMessages_total h s.format s.next
    exact ⟨_, _, by simp only [formatCall, hrun]; rfl⟩
  | sendCurrentTime env =>
    obtain ⟨ret, es, hrun, _⟩ := sendCurrentTime_outcome lib env s.format.format.text
    exact ⟨_, _, by simp only [formatCall, hrun]; rfl⟩

/-- The object of an accepted message. -/
def acceptedObject (value : CString) (rest : List (CString × Json)) : Json :=
  .object ((cstr "date_time_format", .string value) :: rest)

theorem formatCall_cases (h : formatCall lib s call = some (t, es)) :
    (call.accepted = none ∧ t.format = s.format ∧
      ((t.next = s.next ∧ (es = [] ∨ ∃ msg, es = [.report msg])) ∨
        ∃ j, t.next = (CJson.build none s.next j).2 ∧ es = discard s.next j)) ∨
    ∃ value rest, call.accepted = some value ∧ t.format = ⟨true, .heap ⟨s.next + 1, value⟩⟩ ∧
      t.next = (CJson.build none s.next (acceptedObject value rest)).2 ∧
      es = adopt s.format (CJson.build none s.next (acceptedObject value rest)).1.strings
        (leftOver s.next rest) := by
  cases call with
  | onMessages msg decode =>
    simp only [formatCall] at h
    split at h
    · cases h
    · rename_i hrun
      obtain ⟨rfl, rfl⟩ := Prod.mk.inj (Option.some.inj h)
      rcases onMessages_cases hrun with ⟨hnone, hd, ⟨hnext, rfl⟩ | hj⟩ | haccepted
      · exact Or.inl ⟨hnone, hd, Or.inl ⟨hnext, Or.inl rfl⟩⟩
      · exact Or.inl ⟨hnone, hd, Or.inr hj⟩
      · exact Or.inr haccepted
  | sendCurrentTime env =>
    obtain ⟨ret, fs, hrun, hfs⟩ := sendCurrentTime_outcome lib env s.format.format.text
    simp only [formatCall, hrun] at h
    obtain ⟨rfl, rfl⟩ := Prod.mk.inj (Option.some.inj h)
    exact Or.inl ⟨rfl, rfl, Or.inl ⟨rfl, hfs⟩⟩

theorem quiet_ledger (h : es = [] ∨ ∃ msg, es = [.report msg]) :
    made es = [] ∧ freed es = [] ∧ ∀ p, .free p ∉ es := by
  rcases h with rfl | ⟨msg, rfl⟩
  · exact ⟨rfl, rfl, by simp⟩
  · exact ⟨rfl, rfl, by simp⟩

/-- A call allocates what it parses, at the next addresses. -/
theorem formatCall_addrs (h : formatCall lib s call = some (t, es)) :
    ∃ k, t.next = s.next + k ∧ (made es).map HeapString.addr = List.range' s.next k := by
  have hbuild (j : Json) (hnext : t.next = (CJson.build none s.next j).2)
      (hmade : made es = (CJson.build none s.next j).1.strings) :
      ∃ k, t.next = s.next + k ∧ (made es).map HeapString.addr = List.range' s.next k := by
    obtain ⟨k, hk, haddrs⟩ := CJson.build_addrs none s.next j
    exact ⟨k, hnext.trans hk, by rw [hmade, haddrs]; rfl⟩
  rcases formatCall_cases h with ⟨_, _, ⟨hnext, hes⟩ | ⟨j, hnext, rfl⟩⟩ |
    ⟨value, rest, _, _, hnext, rfl⟩
  · exact ⟨0, hnext, by rw [(quiet_ledger hes).1]; rfl⟩
  · exact hbuild j hnext (made_discard s.next j)
  · exact hbuild _ hnext (made_adopt s.format _ _)

/-- A call leaves the format and frees what it has parsed and nothing else, or it takes one
string out of the tree that it has parsed and frees the format before it. -/
theorem formatCall_ledger (h : formatCall lib s call = some (t, es)) :
    (call.accepted = none ∧ t.format = s.format ∧ freed es = made es ∧ ∀ p, .free p ∉ es) ∨
      ∃ p ∈ made es, call.accepted = some p.text ∧ t.format = ⟨true, .heap p⟩ ∧
        (p :: freed es).Perm (held s.format ++ made es) ∧
        ∀ q, Effect.free q ∈ es ↔ Effect.free q ∈ freeDateTimeFormat s.format := by
  rcases formatCall_cases h with ⟨hnone, hformat, ⟨_, hes⟩ | ⟨j, _, rfl⟩⟩ |
    ⟨value, rest, hsome, hformat, _, rfl⟩
  · obtain ⟨hmade, hfreed, hfree⟩ := quiet_ledger hes
    exact Or.inl ⟨hnone, hformat, hfreed.trans hmade.symm, hfree⟩
  · refine Or.inl ⟨hnone, hformat, ?_, by simp [discard]⟩
    rw [freed_discard, made_discard]
  · refine Or.inr ⟨⟨s.next + 1, value⟩, ?_, hsome, hformat, ?_, by simp [adopt]⟩
    · rw [made_adopt, acceptedObject, strings_of_adopted]
      exact List.mem_cons_of_mem _ List.mem_cons_self
    · rw [freed_adopt, made_adopt, acceptedObject, strings_of_adopted]
      apply List.perm_middle.symm.trans
      exact (List.Perm.swap _ _ _).append_left (held s.format)

/-- The balance of one call. -/
theorem formatCall_move (h : formatCall lib s call = some (t, es)) :
    (held s.format : Multiset HeapString) + made es = freed es + held t.format := by
  rcases formatCall_ledger h with ⟨_, hformat, heq, _⟩ | ⟨p, _, _, hformat, hperm, _⟩
  · rw [heq, hformat, add_comm]
  · rw [hformat, add_comm (freed es : Multiset HeapString)]
    exact (Multiset.coe_eq_coe.mpr hperm).symm

/-- The flag tells the initial literal from a string that is to be freed. -/
def Consistent (d : DateTimeFormat) : Prop := d = initialFormat ∨ ∃ p, d = ⟨true, .heap p⟩

theorem Consistent.keep (hs : Consistent s.format) (h : formatCall lib s call = some (t, es)) :
    Consistent t.format := by
  rcases formatCall_ledger h with ⟨_, hkeep, _⟩ | ⟨p, _, _, hnew, _⟩
  · exact hkeep ▸ hs
  · exact Or.inr ⟨p, hnew⟩

theorem Consistent.literal_kept {d : DateTimeFormat} (hd : Consistent d) :
    .free .literal ∉ freeDateTimeFormat d := by
  rcases hd with rfl | ⟨p, rfl⟩ <;> simp [freeDateTimeFormat, initialFormat]

end Calls

/-- The format is the initial literal, or a string that was parsed and is not yet freed. -/
def Designates (d : DateTimeFormat) (es : List Effect) : Prop :=
  d = initialFormat ∨ ∃ p, d = ⟨true, .heap p⟩ ∧ p ∈ made es ∧ p ∉ freed es

/-- The format that the latest accepted message carries. -/
def latest {Tm : Type} (calls : List (FormatCall Tm)) : CString :=
  (calls.filterMap FormatCall.accepted).getLast?.getD (cstr "%F %T%z")

section Runs
variable {Tm : Type} {lib : Strftime Tm} {s t : FormatState} {calls : List (FormatCall Tm)}
  {es : List Effect} {p : HeapString}

theorem made_nodup_of_run (run : Run (formatCall lib) s calls es t) : (made es).Nodup := by
  have hrun := run.history (h := [])
    (P := fun u h => ∃ k, u.next = s.next + k ∧
      (made h).map HeapString.addr = List.range' s.next k) ?_ ⟨0, rfl, rfl⟩
  · obtain ⟨k, _, haddrs⟩ := hrun
    rw [List.nil_append] at haddrs
    apply List.Nodup.of_map HeapString.addr
    rw [haddrs]
    exact List.nodup_range'
  · rintro u call v h fs ⟨k, hk, haddrs⟩ hstep
    obtain ⟨l, hl, haddrs'⟩ := formatCall_addrs hstep
    refine ⟨k + l, by rw [hl, hk, Nat.add_assoc], ?_⟩
    rw [made_append, List.map_append, haddrs, haddrs', hk, List.range'_append_1]

theorem balance_of_run (run : Run (formatCall lib) s calls es t) :
    (held s.format : Multiset HeapString) + made es = freed es + held t.format := by
  apply run.balance (P := fun _ => True)
  · intro xs ys
    rw [made_append, Multiset.coe_add]
  · intro xs ys
    rw [freed_append, Multiset.coe_add]
  · rfl
  · exact fun _ _ => trivial
  · exact fun _ => formatCall_move
  · trivial

/-- What is made is freed, but for the string that is held. -/
theorem freed_perm_of_run (run : Run (formatCall lib) s calls es t) (hs : held s.format = []) :
    (freed es ++ held t.format).Perm (made es) := by
  have hbalance := balance_of_run run
  rw [hs, Multiset.coe_nil, zero_add, Multiset.coe_add] at hbalance
  exact (Multiset.coe_eq_coe.mp hbalance).symm

theorem text_of_run (run : Run (formatCall lib) s calls es t) : t.format.format.text =
    (calls.filterMap FormatCall.accepted).getLast?.getD s.format.format.text := by
  induction run with
  | nil => rfl
  | @cons s u t call calls es fs hstep _ ih =>
    rw [ih]
    rcases formatCall_ledger hstep with ⟨hnone, hformat, _⟩ | ⟨p, _, hsome, hformat, _⟩
    · rw [List.filterMap_cons_none hnone, hformat]
    · rw [List.filterMap_cons_some hsome, hformat, List.getLast?_cons, Option.getD_some]
      rfl

/-- Only strings that were taken from a message are ever freed by name. -/
theorem literal_kept_of_run (run : Run (formatCall lib) s calls es t)
    (hs : Consistent s.format) : .free .literal ∉ es ++ freeDateTimeFormat t.format := by
  have hrun := run.history (h := [])
    (P := fun u h => Consistent u.format ∧ .free .literal ∉ h) ?_ ⟨hs, List.not_mem_nil⟩
  · obtain ⟨hformat, hnot⟩ := hrun
    rw [List.nil_append] at hnot
    exact List.not_mem_append hnot hformat.literal_kept
  · rintro u call v h fs ⟨hformat, hnot⟩ hstep
    refine ⟨hformat.keep hstep, List.not_mem_append hnot ?_⟩
    rcases formatCall_ledger hstep with ⟨_, _, _, hno⟩ | ⟨p, _, _, _, _, hiff⟩
    · exact hno _
    · rw [hiff]
      exact hformat.literal_kept

theorem designates_of_run (run : Run (formatCall lib) s calls es t)
    (hs : s.format = initialFormat) : Designates t.format es := by
  have hrun := run.invariant (P := fun u => Consistent u.format) Consistent.keep (Or.inl hs)
  rcases hrun with hinit | ⟨p, hp⟩
  · exact Or.inl hinit
  · have hperm := freed_perm_of_run run (by rw [hs]; rfl)
    have hnodup := hperm.nodup_iff.mpr (made_nodup_of_run run)
    rw [hp] at hperm hnodup
    refine Or.inr ⟨p, hp, ?_, ?_⟩
    · exact hperm.mem_iff.mp (List.mem_append_right _ List.mem_cons_self)
    · intro hmem
      exact (List.nodup_append.mp hnodup).2.2 p hmem p List.mem_cons_self rfl

/-- A string that was taken out of its tree stays the format until it is freed by name. -/
theorem freed_by_name_of_run (run : Run (formatCall lib) s calls es t)
    (hs : s.format = ⟨true, .heap p⟩) :
    .free (.heap p) ∈ es ++ freeDateTimeFormat t.format := by
  have hfree {u : FormatState} (hu : u.format = ⟨true, .heap p⟩) :
      .free (.heap p) ∈ freeDateTimeFormat u.format := by
    rw [hu]
    exact List.mem_cons_self
  have hrun := run.history (h := [])
    (P := fun u h => .free (.heap p) ∈ h ∨ u.format = ⟨true, .heap p⟩) ?_ (Or.inr hs)
  · rw [List.nil_append] at hrun
    exact List.mem_append.mpr (hrun.imp_right hfree)
  · intro u call v h fs hu hstep
    rcases hu with hmem | hu
    · exact Or.inl (List.mem_append_left _ hmem)
    · rcases formatCall_ledger hstep with ⟨_, hkeep, _⟩ | ⟨q, _, _, _, _, hiff⟩
      · exact Or.inr (hkeep.trans hu)
      · exact Or.inl (List.mem_append_right _ ((hiff _).mpr (hfree hu)))

theorem freed_torn_down_of_run (run : Run (formatCall lib) s calls es t)
    (hs : held s.format = []) : (freed (es ++ freeDateTimeFormat t.format)).Perm (made es) := by
  rw [freed_append, freed_freeDateTimeFormat]
  exact freed_perm_of_run run hs

/-- What is freed by name is in no tree that is deleted, if nothing is freed twice. -/
theorem not_deleted_of_free (hn : (freed es).Nodup) (hfree : .free (.heap p) ∈ es)
    {tree : List HeapString} (hdelete : .delete tree ∈ es) : p ∉ tree := by
  intro hp
  have hsymm : Std.Symm (Function.onFun List.Disjoint Effect.freed) := ⟨fun _ _ h => h.symm⟩
  have hdisj := (List.nodup_flatMap.mp hn).2.forall hfree hdelete (by simp)
  exact hdisj List.mem_cons_self hp

end Runs

/-- A call that accepts nothing leaves the format and frees what it has parsed; an accepted
message installs a string of its own tree. -/
def Handles {Tm : Type} (call : FormatCall Tm) (d d' : DateTimeFormat) (es : List Effect) :
    Prop :=
  match call.accepted with
  | none => d' = d ∧ freed es = made es ∧ ∀ p, .free p ∉ es
  | some value => ∃ p ∈ made es, p.text = value ∧ d' = ⟨true, .heap p⟩

section
variable {Tm : Type} (lib : Strftime Tm)

theorem formatCall_handles (s : FormatState) {call : FormatCall Tm} (h : call.CarriesObject) :
    ∃ s' es, formatCall lib s call = some (s', es) ∧ Handles call s.format s'.format es := by
  obtain ⟨s', es, hstep⟩ := formatCall_total lib s call h
  refine ⟨s', es, hstep, ?_⟩
  rcases formatCall_ledger hstep with ⟨hnone, hkeep, hfreed, hfree⟩ | ⟨p, hp, hsome, hnew, _⟩
  · rw [Handles, hnone]
    exact ⟨hkeep, hfreed, hfree⟩
  · rw [Handles, hsome]
    exact ⟨p, hp, rfl, hnew⟩

/-- In every sequence of calls the format stays the literal or a live string with the content
of the latest accepted message, which `cJSON_Delete` never frees, and after the final
`free_date_time_format` every string of every message is freed exactly once. -/
theorem format_ownership (next : Nat) {calls : List (FormatCall Tm)}
    (h : ∀ call ∈ calls, call.CarriesObject) :
    ∃ t es, exec (formatCall lib) ⟨initialFormat, next⟩ calls = some (t, es) ∧
      (∀ before after, calls = before ++ after → ∃ s es₁ es₂,
        exec (formatCall lib) ⟨initialFormat, next⟩ before = some (s, es₁) ∧ es = es₁ ++ es₂ ∧
          Designates s.format es₁ ∧ s.format.format.text = latest before ∧
          ∀ p, s.format.format = .heap p → ∀ tree, .delete tree ∈ es → p ∉ tree) ∧
      (∀ s, ∀ call ∈ calls, ∃ s' es', formatCall lib s call = some (s', es') ∧
        Handles call s.format s'.format es') ∧
      .free .literal ∉ es ++ freeDateTimeFormat t.format ∧
      (made es).Nodup ∧ (freed (es ++ freeDateTimeFormat t.format)).Perm (made es) := by
  obtain ⟨t, es, hexec⟩ := exec_total (formatCall_total lib) h ⟨initialFormat, next⟩
  have run := run_of_exec hexec
  have hnodup := made_nodup_of_run run
  have hperm := freed_torn_down_of_run run rfl
  refine ⟨t, es, hexec, ?_, fun s call hcall => formatCall_handles lib s (h call hcall),
    literal_kept_of_run run (Or.inl rfl), hnodup, hperm⟩
  rintro before after rfl
  obtain ⟨s, es₁, hbefore⟩ := exec_total (formatCall_total lib)
    (fun call hcall => h call (List.mem_append_left after hcall)) ⟨initialFormat, next⟩
  obtain ⟨u, es₂, hafter⟩ := exec_total (formatCall_total lib)
    (fun call hcall => h call (List.mem_append_right before hcall)) s
  obtain ⟨rfl, rfl⟩ := Prod.mk.inj (Option.some.inj
    (hexec.symm.trans (exec_append hbefore hafter)))
  have hrun := run_of_exec hbefore
  refine ⟨s, es₁, es₂, hbefore, rfl, designates_of_run hrun rfl, text_of_run hrun, ?_⟩
  intro p hp tree hdelete
  rcases designates_of_run hrun rfl with hinit | ⟨q, hq, _⟩
  · rw [hinit] at hp
    cases hp
  · rw [hq] at hp
    obtain rfl := FormatPtr.heap.inj hp
    have hfree := freed_by_name_of_run (run_of_exec hafter) hq
    apply not_deleted_of_free (hperm.nodup_iff.mpr hnodup)
    · rw [List.append_assoc]
      exact List.mem_append_right es₁ hfree
    · exact List.mem_append_left _ hdelete

end

/-- Two messages that set the format, with a report between them. -/
def quoteTwice : List (FormatCall Unit) :=
  [.onMessages ⟨.propertySet, some quoteText⟩ quoteDecode, .sendCurrentTime workingClock,
    .onMessages ⟨.propertySet, some quoteText⟩ quoteDecode]

theorem format_ownership_twice : ∃ t es,
    exec (formatCall plainStrftime) ⟨initialFormat, 1⟩ quoteTwice = some (t, es) ∧
      (made es).Nodup ∧ (freed (es ++ freeDateTimeFormat t.format)).Perm (made es) := by
  have hobject : ∀ call ∈ quoteTwice, call.CarriesObject := by
    rw [quoteTwice]
    simp only [List.forall_mem_cons, List.not_mem_nil, false_implies, implies_true, and_true]
    exact ⟨fun _ => ⟨_, rfl⟩, trivial, fun _ => ⟨_, rfl⟩⟩
  obtain ⟨t, es, hexec, _, _, _, hnodup, hperm⟩ := format_ownership plainStrftime 1 hobject
  exact ⟨t, es, hexec, hnodup, hperm⟩

end TuyaDaemon.Standalone
