import TuyaDaemon.Openwrt.SenderRuns

/-!
# What a call of a sender reports

One optional string, `delivered`, answers it: it is what is reported and what is freed,
and the result of the call is the result of that report.
-/

namespace TuyaDaemon.Openwrt

set_option autoImplicit false

@[simp] theorem reports_append (xs ys : List UbusEvent) :
    reports (xs ++ ys) = reports xs ++ reports ys := List.filterMap_append

@[simp] theorem formatted_append (xs ys : List UbusEvent) :
    formatted (xs ++ ys) = formatted xs ++ formatted ys := List.filterMap_append

@[simp] theorem freed_append (xs ys : List UbusEvent) :
    freed (xs ++ ys) = freed xs ++ freed ys := List.filterMap_append

@[simp] theorem reports_map_formatJson (ps : List HeapString) :
    reports (ps.map .formatJson) = [] := by
  simp [reports, List.filterMap_map, Function.comp_def, UbusEvent.report?]

@[simp] theorem formatted_map_formatJson (ps : List HeapString) :
    formatted (ps.map .formatJson) = ps := by
  simp [formatted, List.filterMap_map, Function.comp_def, UbusEvent.formatJson?]

@[simp] theorem freed_map_formatJson (ps : List HeapString) :
    freed (ps.map .formatJson) = [] := by
  simp [freed, List.filterMap_map, Function.comp_def, UbusEvent.free?]

namespace Sender
variable {Attr Data : Type} (lib : Blobmsg Attr Data) (env : UbusEnv Attr)
  (ctx : Option UbusContext) (s : Sender) (next : Nat)

/-- The string that is reported and freed, if the call gets that far. -/
def delivered : Option HeapString :=
  if s.Found env ∧ s.Built env then s.sent lib env next else none

def stringsMade : List HeapString :=
  if s.Found env ∧ s.Built env then produced lib (s.select lib) next (s.replies env) else []

theorem reports_prologue : reports (s.prologue lib env ctx next) = [] := by
  simp only [prologue, reports_append, reports_map_formatJson]
  cases s <;> rfl

theorem formatted_prologue : formatted (s.prologue lib env ctx next) =
    produced lib (s.select lib) next (s.replies env) := by
  have ho : formatted (.lookupId ctx s.service :: s.opening) = [] := by cases s <;> rfl
  have hc : formatted s.closing = [] := by cases s <;> rfl
  simp only [prologue, formatted_append, formatted_map_formatJson, ho, hc, List.append_nil]
  rfl

theorem freed_prologue : freed (s.prologue lib env ctx next) = [] := by
  simp only [prologue, freed_append, freed_map_formatJson]
  cases s <;> rfl

/-- A call that stops at the lookup or at the request makes, reports and frees no string. -/
theorem run_of_stopped (h : ¬ (s.Found env ∧ s.Built env)) :
    ∃ es, s.run lib env ctx next = (false, ⟨env.stack, next, es⟩) ∧
      reports es = [] ∧ formatted es = [] ∧ freed es = [] := by
  by_cases hf : s.Found env
  · have hb : ¬ s.Built env := fun hb => h ⟨hf, hb⟩
    exact ⟨_, run_of_not_built lib env ctx s next hf hb, rfl, rfl, rfl⟩
  · exact ⟨_, run_of_not_found lib env ctx s next hf, rfl, rfl, rfl⟩

theorem run_result : (s.run lib env ctx next).1 = verdict env (s.delivered lib env next) := by
  unfold delivered
  by_cases h : s.Found env ∧ s.Built env
  · rw [run_of_built lib env ctx s next h.1 h.2, if_pos h]
  · obtain ⟨es, hrun, _⟩ := run_of_stopped lib env ctx s next h
    rw [hrun, if_neg h]
    rfl

theorem reports_run : reports (s.run lib env ctx next).2.events =
    ((s.delivered lib env next).map HeapString.text).toList := by
  unfold delivered
  by_cases h : s.Found env ∧ s.Built env
  · rw [run_of_built lib env ctx s next h.1 h.2, if_pos h, reports_append, reports_prologue]
    cases s.sent lib env next <;> rfl
  · obtain ⟨es, hrun, hreports, _, _⟩ := run_of_stopped lib env ctx s next h
    rw [hrun, if_neg h]
    exact hreports

theorem freed_run : freed (s.run lib env ctx next).2.events =
    (s.delivered lib env next).toList := by
  unfold delivered
  by_cases h : s.Found env ∧ s.Built env
  · rw [run_of_built lib env ctx s next h.1 h.2, if_pos h, freed_append, freed_prologue]
    cases s.sent lib env next <;> rfl
  · obtain ⟨es, hrun, _, _, hfreed⟩ := run_of_stopped lib env ctx s next h
    rw [hrun, if_neg h]
    exact hfreed

theorem formatted_run : formatted (s.run lib env ctx next).2.events =
    s.stringsMade lib env next := by
  unfold stringsMade
  by_cases h : s.Found env ∧ s.Built env
  · rw [run_of_built lib env ctx s next h.1 h.2, if_pos h, formatted_append, formatted_prologue]
    cases s.sent lib env next <;> exact List.append_nil _
  · obtain ⟨es, hrun, _, hformatted, _⟩ := run_of_stopped lib env ctx s next h
    rw [hrun, if_neg h]
    exact hformatted

/-- Once a reply has arrived, the last one alone decides what is sent. -/
theorem sent_of_replies {msgs : List Attr} {last : Attr}
    (h : s.replies env = msgs ++ [last]) :
    s.sent lib env next = if s.InvokeOk env then
      (s.select lib last).map fun attr =>
        ⟨next + (produced lib (s.select lib) next msgs).length, lib.blobmsgFormatJson attr⟩
    else none := by
  unfold sent response
  rw [h, foldl_receive_resp]
  by_cases hok : s.InvokeOk env
  · cases hs : s.select lib last <;> simp [hok]
  · simp [hok]

end Sender

/-! Valid replies, in the words of the policies. -/

namespace Sender
variable {Attr Data : Type} (lib : Blobmsg Attr Data)

/-- `msg` is a valid reply for the sender and `attr` is the part of it to be formatted. -/
def ValidReply : Sender → Attr → Attr → Prop
  | sendMemoryInfo, msg, attr =>
    (lib.blobmsgParse infoPolicy (lib.blobData msg)).1 = 0 ∧
      (lib.blobmsgParse infoPolicy (lib.blobData msg)).2 memoryData = some attr ∧
      (∀ p ∈ infoPolicy, lib.HasField (lib.blobData msg) p) ∧
      (lib.blobmsgParse memoryPolicy (lib.blobmsgData attr)).1 = 0 ∧
      ∀ p ∈ memoryPolicy, lib.HasField (lib.blobmsgData attr) p
  | sendConnectedDevicesList, msg, attr =>
    attr = msg ∧ (lib.blobmsgParse devctlPolicy (lib.blobData msg)).1 = 0 ∧
      ∀ p ∈ devctlPolicy, lib.HasField (lib.blobData msg) p
  | controlDevicePin _ _ _, msg, attr =>
    attr = msg ∧ (lib.blobmsgParse devctlCtlPolicy (lib.blobData msg)).1 = 0 ∧
      ∀ p ∈ devctlCtlPolicy, lib.HasField (lib.blobData msg) p

variable {lib}

theorem field_found {policy : List BlobmsgPolicy} {data : Data}
    (hret : (lib.blobmsgParse policy data).1 = 0) (i : Nat) {p : BlobmsgPolicy}
    (hp : policy[i]? = some p) :
    (lib.blobmsgParse policy data).2 i = none ↔ ¬ lib.HasField data p := by
  rw [← lib.parse_field policy data i p hret hp, Option.not_isSome_iff_eq_none]

theorem pair_fields_iff {p q : BlobmsgPolicy} {data : Data}
    (hret : (lib.blobmsgParse [p, q] data).1 = 0) :
    ((lib.blobmsgParse [p, q] data).2 0 = none ∨ (lib.blobmsgParse [p, q] data).2 1 = none) ↔
      ¬ ∀ r ∈ [p, q], lib.HasField data r := by
  rw [field_found hret 0 rfl, field_found hret 1 rfl, ← not_and_or]
  simp only [List.forall_mem_cons, List.not_mem_nil, false_implies, implies_true, and_true]

theorem checkedReply_eq_some_iff (p q : BlobmsgPolicy) (msg attr : Attr) :
    checkedReply lib [p, q] 0 1 msg = some attr ↔
      attr = msg ∧ (lib.blobmsgParse [p, q] (lib.blobData msg)).1 = 0 ∧
        ∀ r ∈ [p, q], lib.HasField (lib.blobData msg) r := by
  simp only [checkedReply, Option.ite_none_left_eq_some, Option.some.injEq, not_or, ne_eq, not_not]
  constructor
  · rintro ⟨⟨hret, hfields⟩, rfl⟩
    exact ⟨rfl, hret, not_not.mp ((pair_fields_iff hret).not.mp (not_or.mpr hfields))⟩
  · rintro ⟨rfl, hret, hall⟩
    exact ⟨⟨hret, not_or.mp ((pair_fields_iff hret).not.mpr (not_not.mpr hall))⟩, rfl⟩

theorem memory_fields_iff {data : Data} (hret : (lib.blobmsgParse memoryPolicy data).1 = 0) :
    ((lib.blobmsgParse memoryPolicy data).2 totalMemory = none ∨
      (lib.blobmsgParse memoryPolicy data).2 freeMemory = none ∨
      (lib.blobmsgParse memoryPolicy data).2 sharedMemory = none ∨
      (lib.blobmsgParse memoryPolicy data).2 bufferedMemory = none ∨
      (lib.blobmsgParse memoryPolicy data).2 availableMemory = none ∨
      (lib.blobmsgParse memoryPolicy data).2 cachedMemory = none) ↔
    ¬ ∀ p ∈ memoryPolicy, lib.HasField data p := by
  rw [field_found hret totalMemory rfl, field_found hret freeMemory rfl,
    field_found hret sharedMemory rfl, field_found hret bufferedMemory rfl,
    field_found hret availableMemory rfl, field_found hret cachedMemory rfl]
  simp only [memoryPolicy, List.forall_mem_cons, not_and_or]
  simp

theorem memDataReply_eq_some_iff (msg attr : Attr) : memDataReply lib msg = some attr ↔
    (lib.blobmsgParse infoPolicy (lib.blobData msg)).1 = 0 ∧
      (lib.blobmsgParse infoPolicy (lib.blobData msg)).2 memoryData = some attr ∧
      (∀ p ∈ infoPolicy, lib.HasField (lib.blobData msg) p) ∧
      (lib.blobmsgParse memoryPolicy (lib.blobmsgData attr)).1 = 0 ∧
      ∀ p ∈ memoryPolicy, lib.HasField (lib.blobmsgData attr) p := by
  simp only [memDataReply, Option.ite_none_left_eq_some, ne_eq, not_not]
  refine and_congr_right fun hret => ?_
  have htable := (field_found hret memoryData rfl).not
  cases hd : (lib.blobmsgParse infoPolicy (lib.blobData msg)).2 memoryData with
  | none => simp
  | some data =>
    rw [hd, not_not] at htable
    have hinfo : ∀ p ∈ infoPolicy, lib.HasField (lib.blobData msg) p := by
      simpa [infoPolicy] using htable
    simp only [Option.ite_none_left_eq_some, Option.some.injEq]
    constructor
    · rintro ⟨hbad, rfl⟩
      rw [not_or, not_not] at hbad
      exact ⟨rfl, hinfo, hbad.1, not_not.mp ((memory_fields_iff hbad.1).not.mp hbad.2)⟩
    · rintro ⟨rfl, _, hmem, hall⟩
      exact ⟨not_or.mpr ⟨not_not.mpr hmem, (memory_fields_iff hmem).not.mpr (not_not.mpr hall)⟩,
        rfl⟩

theorem select_eq_some_iff (s : Sender) (msg attr : Attr) :
    s.select lib msg = some attr ↔ s.ValidReply lib msg attr := by
  cases s with
  | sendMemoryInfo => exact memDataReply_eq_some_iff msg attr
  | sendConnectedDevicesList => exact checkedReply_eq_some_iff _ _ msg attr
  | controlDevicePin _ _ _ => exact checkedReply_eq_some_iff _ _ msg attr

variable (lib) (env : UbusEnv Attr) (ctx : Option UbusContext) (s : Sender) (next : Nat)

/-- The call gets through, its last reply is valid and `attr` is to be formatted. -/
def Succeeds (attr : Attr) : Prop :=
  s.Found env ∧ s.Built env ∧ s.InvokeOk env ∧
    ∃ last, (s.replies env).getLast? = some last ∧ s.ValidReply lib last attr

variable {lib env s}

theorem delivered_of_succeeds {attr : Attr} (h : s.Succeeds lib env attr) :
    ∃ p, s.delivered lib env next = some p ∧ p.text = lib.blobmsgFormatJson attr := by
  obtain ⟨hf, hb, hok, last, hlast, hvalid⟩ := h
  obtain ⟨msgs, hmsgs⟩ := List.getLast?_eq_some_iff.mp hlast
  have hsel := (select_eq_some_iff s last attr).mpr hvalid
  unfold delivered
  rw [if_pos ⟨hf, hb⟩, s.sent_of_replies lib env next hmsgs, if_pos hok, hsel]
  exact ⟨_, rfl, rfl⟩

theorem succeeds_of_delivered (hne : s.replies env ≠ []) {p : HeapString}
    (h : s.delivered lib env next = some p) : ∃ attr, s.Succeeds lib env attr := by
  obtain ⟨msgs, last, hmsgs⟩ := (List.eq_nil_or_concat (s.replies env)).resolve_left hne
  rw [List.concat_eq_append] at hmsgs
  unfold delivered at h
  split at h
  · rename_i hfb
    rw [s.sent_of_replies lib env next hmsgs] at h
    split at h
    · rename_i hok
      obtain ⟨attr, hsel, _⟩ := Option.map_eq_some_iff.mp h
      exact ⟨attr, hfb.1, hfb.2, hok, last, List.getLast?_eq_some_iff.mpr ⟨msgs, hmsgs⟩,
        (select_eq_some_iff s last attr).mp hsel⟩
    · cases h
  · cases h

theorem verdict_eq_true_iff (p : Option HeapString) :
    verdict env p = true ↔ ∃ q, p = some q ∧ 0 ≤ env.report q.text := by
  cases p with
  | none => simp [verdict]
  | some q => simp [verdict]

variable (lib env s)

/-- One report is sent exactly when the call gets through and its last reply is valid;
its text is that reply, and the result of the call is the result of the report. -/
theorem report_iff_last_reply_valid (hne : s.replies env ≠ []) :
    (∀ attr, s.Succeeds lib env attr →
      reports (s.run lib env ctx next).2.events = [lib.blobmsgFormatJson attr]) ∧
    ((∀ attr, ¬ s.Succeeds lib env attr) →
      reports (s.run lib env ctx next).2.events = []) ∧
    ((s.run lib env ctx next).1 = true ↔
      ∃ msg, reports (s.run lib env ctx next).2.events = [msg] ∧ 0 ≤ env.report msg) := by
  rw [reports_run, run_result]
  refine ⟨?_, ?_, ?_⟩
  · intro attr h
    obtain ⟨p, hp, htext⟩ := delivered_of_succeeds next h
    rw [hp, Option.map_some, htext]
    rfl
  · intro h
    cases hd : s.delivered lib env next with
    | none => rfl
    | some p =>
      obtain ⟨attr, hattr⟩ := succeeds_of_delivered next hne hd
      exact absurd hattr (h attr)
  · rw [verdict_eq_true_iff]
    cases s.delivered lib env next <;> simp

end Sender

def Blob.memoryTable : Blob := .table [(cstr "total", .int64 9), (cstr "free", .int64 8),
  (cstr "shared", .int64 7), (cstr "buffered", .int64 6), (cstr "available", .int64 5),
  (cstr "cached", .int64 4)]

def Blob.memoryInfo : Blob := .table [(cstr "memory", Blob.memoryTable)]

namespace Sender

theorem report_iff_last_reply_valid_memory :
    reports (sendMemoryInfo.run Blob.blobmsg
      (Blob.answering 0 [.table [], .memoryInfo] ⟨false, 0, []⟩) none 1).2.events =
        [Blob.blobmsg.blobmsgFormatJson Blob.memoryTable] := by
  refine (sendMemoryInfo.report_iff_last_reply_valid Blob.blobmsg
    (Blob.answering 0 [.table [], .memoryInfo] ⟨false, 0, []⟩) none 1 (by decide)).1 _ ?_
  exact ⟨rfl, trivial, rfl, Blob.memoryInfo, rfl, (select_eq_some_iff sendMemoryInfo _ _).mp rfl⟩

end Sender
end TuyaDaemon.Openwrt
