import TuyaDaemon.Openwrt.SenderContract

/-!
# What a call of a sender depends on and releases

The response is a local that only the callback initialises, and the callback
overwrites its string without freeing the one before. Both show on the reply
sequence alone: with no reply the local is read as the stack left it, with a
valid reply that is not the last, or that the invocation does not honour, a
string is lost.
-/

namespace TuyaDaemon.Openwrt

set_option autoImplicit false

namespace Sender

section Stack
variable {Attr Data : Type} (lib : Blobmsg Attr Data) (env : UbusEnv Attr)
  (ctx : Option UbusContext) (s : Sender) (next : Nat)

def observe (r : Bool × Call) : Bool × List CString × List HeapString :=
  (r.1, reports r.2.events, freed r.2.events)

/-- Nothing depends on what the local response held before the call, and every report
is the text of a string that the call itself formatted. -/
def StackIndependent : Prop :=
  (∀ r₁ r₂ : UbusResponse, observe (s.run lib { env with stack := r₁ } ctx next) =
    observe (s.run lib { env with stack := r₂ } ctx next)) ∧
  ∀ r : UbusResponse, ∀ msg ∈ reports (s.run lib { env with stack := r } ctx next).2.events,
    ∃ p ∈ formatted (s.run lib { env with stack := r } ctx next).2.events, p.text = msg

theorem observe_run : observe (s.run lib env ctx next) =
    (verdict env (s.delivered lib env next),
      ((s.delivered lib env next).map HeapString.text).toList,
      (s.delivered lib env next).toList) := by
  rw [observe, run_result, reports_run, freed_run]

variable {lib env s}

theorem sent_mem_produced (hne : s.replies env ≠ []) {p : HeapString}
    (h : s.sent lib env next = some p) :
    p ∈ produced lib (s.select lib) next (s.replies env) := by
  obtain ⟨msgs, last, hmsgs⟩ := (List.eq_nil_or_concat (s.replies env)).resolve_left hne
  rw [List.concat_eq_append] at hmsgs
  rw [s.sent_of_replies lib env next hmsgs] at h
  split at h
  · obtain ⟨attr, hsel, rfl⟩ := Option.map_eq_some_iff.mp h
    rw [hmsgs, produced_append]
    simp [produced, hsel]
  · cases h

theorem sent_stack (h : s.InvokeOk env → s.replies env ≠ []) (r : UbusResponse) :
    s.sent lib { env with stack := r } next = s.sent lib env next := by
  by_cases hok : s.InvokeOk env
  · obtain ⟨msgs, last, hmsgs⟩ := (List.eq_nil_or_concat (s.replies env)).resolve_left (h hok)
    rw [List.concat_eq_append] at hmsgs
    rw [s.sent_of_replies lib env next hmsgs,
      s.sent_of_replies lib { env with stack := r } next hmsgs]
    rfl
  · rw [sent, sent, if_neg (fun hs => hok hs.1), if_neg (fun hs => hok hs.1)]

theorem sent_of_no_reply (hok : s.InvokeOk env) (h : s.replies env = []) :
    s.sent lib env next =
      if env.stack.requestSuccessful = true then some env.stack.dataJson else none := by
  have hresp : s.response lib env next = env.stack := by rw [response, h]; rfl
  rw [sent, hresp]
  simp only [hok, true_and]

variable (lib env s)

/-- The local response is read uninitialised exactly when the invocation succeeds
without delivering a reply. -/
theorem stackIndependent_iff : s.StackIndependent lib env ctx next ↔
    (s.Found env ∧ s.Built env ∧ s.InvokeOk env → s.replies env ≠ []) := by
  constructor
  · rintro ⟨hsame, _⟩ ⟨hf, hb, hok⟩ hnil
    have hdel : ∀ r : UbusResponse, s.delivered lib { env with stack := r } next =
        if r.requestSuccessful = true then some r.dataJson else none := by
      intro r
      rw [delivered, if_pos ⟨hf, hb⟩]
      exact sent_of_no_reply next hok hnil
    have h := hsame ⟨true, 0, []⟩ ⟨false, 0, []⟩
    rw [observe_run, observe_run, hdel, hdel] at h
    have hfreed := congrArg (fun o => o.2.2) h
    cases hfreed
  · intro h
    have hdel : ∀ r : UbusResponse, s.delivered lib { env with stack := r } next =
        s.delivered lib env next := by
      intro r
      unfold delivered
      by_cases hfb : s.Found env ∧ s.Built env
      · rw [if_pos hfb]
        exact (if_pos hfb).trans (sent_stack next (fun hok => h ⟨hfb.1, hfb.2, hok⟩) r)
      · rw [if_neg hfb]
        exact if_neg hfb
    constructor
    · intro r₁ r₂
      rw [observe_run, observe_run, hdel r₁, hdel r₂]
      rfl
    · intro r msg hmsg
      rw [reports_run, hdel] at hmsg
      rw [formatted_run]
      cases hd : s.delivered lib env next with
      | none => simp [hd] at hmsg
      | some p =>
        simp only [hd, Option.map_some, Option.toList_some, List.mem_singleton] at hmsg
        refine ⟨p, ?_, hmsg.symm⟩
        unfold delivered at hd
        split at hd
        · rename_i hfb
          have hok : s.InvokeOk env := by
            by_contra hok
            rw [sent, if_neg (fun hs => hok hs.1)] at hd
            cases hd
          change p ∈ s.stringsMade lib env next
          rw [stringsMade, if_pos hfb]
          exact sent_mem_produced next (h ⟨hfb.1, hfb.2, hok⟩) hd
        · cases hd

end Stack

/-- A successful invocation without a reply: a stale string is reported and freed. -/
theorem not_stackIndependent_info :
    ¬ sendMemoryInfo.StackIndependent Blob.blobmsg (Blob.answering 0 [] ⟨false, 0, []⟩)
      none 1 := by
  intro h
  have hdiff := h.1 ⟨true, 7, cstr "stale"⟩ ⟨false, 7, cstr "stale"⟩
  revert hdiff
  decide

/-! The ledger of strings and request buffers. -/

/-- Every string made during the call is freed exactly once, and so is the request
buffer if it was initialised. -/
def Balanced (es : List UbusEvent) : Prop :=
  (∀ p ∈ formatted es, (freed es).count p = 1) ∧
    (UbusEvent.blobBufInit ∈ es → es.count .blobBufFree = 1)

section Ledger
variable {Attr Data : Type} (lib : Blobmsg Attr Data) (env : UbusEnv Attr)
  (ctx : Option UbusContext) (s : Sender) (next : Nat)

def Valid (msg : Attr) : Prop := ∃ attr, s.ValidReply lib msg attr

theorem select_eq_none_iff (msg : Attr) : s.select lib msg = none ↔ ¬ s.Valid lib msg := by
  rw [Option.eq_none_iff_forall_ne_some]
  constructor
  · rintro h ⟨attr, hattr⟩
    exact h attr ((select_eq_some_iff s msg attr).mpr hattr)
  · intro h attr hsel
    exact h ⟨attr, (select_eq_some_iff s msg attr).mp hsel⟩

theorem count_blobBufFree_map (ps : List HeapString) :
    (ps.map UbusEvent.formatJson).count .blobBufFree = 0 := by
  apply List.count_eq_zero.mpr
  simp

theorem buffer_balanced (hf : s.Found env) (hb : s.Built env)
    (h : UbusEvent.blobBufInit ∈ (s.run lib env ctx next).2.events) :
    (s.run lib env ctx next).2.events.count .blobBufFree = 1 := by
  rw [run_of_built lib env ctx s next hf hb] at h ⊢
  have hinit : UbusEvent.blobBufInit ∉ epilogue (s.sent lib env next) := by
    cases s.sent lib env next <;> simp [epilogue]
  have hfree : (epilogue (s.sent lib env next)).count .blobBufFree = 0 := by
    cases s.sent lib env next <;> rfl
  cases s with
  | sendMemoryInfo => simp [prologue, opening, closing, hinit] at h
  | sendConnectedDevicesList => simp [prologue, opening, closing, hinit] at h
  | controlDevicePin turnOn device pin =>
    simp only [prologue, opening, closing, List.count_append, count_blobBufFree_map, hfree]
    rfl

theorem produced_eq_nil_iff_not_valid (msgs : List Attr) :
    produced lib (s.select lib) next msgs = [] ↔ ∀ msg ∈ msgs, ¬ s.Valid lib msg := by
  simp only [produced_eq_nil_iff, select_eq_none_iff]

/-- Only the string of the last reply is ever freed, and only when the invocation succeeds. -/
theorem strings_balanced_iff (hne : s.replies env ≠ []) :
    (∀ p ∈ produced lib (s.select lib) next (s.replies env),
      (s.sent lib env next).toList.count p = 1) ↔
    (s.InvokeOk env ∧ ∀ msg ∈ (s.replies env).dropLast, ¬ s.Valid lib msg) ∨
      (¬ s.InvokeOk env ∧ ∀ msg ∈ s.replies env, ¬ s.Valid lib msg) := by
  obtain ⟨msgs, last, hmsgs⟩ := (List.eq_nil_or_concat (s.replies env)).resolve_left hne
  rw [List.concat_eq_append] at hmsgs
  have hsent := s.sent_of_replies lib env next hmsgs
  by_cases hok : s.InvokeOk env
  · rw [if_pos hok] at hsent
    simp only [hok, true_and, not_true_eq_false, false_and, or_false]
    rw [hmsgs, List.dropLast_concat, ← produced_eq_nil_iff_not_valid lib s next, produced_append]
    constructor
    · intro h
      by_contra hprod
      obtain ⟨p, hp⟩ := List.exists_mem_of_ne_nil _ hprod
      have hlt := addr_lt_of_mem_produced lib (s.select lib) hp
      have hmem := List.count_pos_iff.mp
        (Nat.lt_of_lt_of_eq Nat.one_pos (h p (List.mem_append_left _ hp)).symm)
      rw [Option.mem_toList, hsent] at hmem
      obtain ⟨attr, _, rfl⟩ := Option.map_eq_some_iff.mp hmem
      exact Nat.lt_irrefl _ hlt
    · intro hnil p hp
      rw [hnil, List.nil_append, List.length_nil] at hp
      rw [hsent, hnil]
      cases hsel : s.select lib last with
      | none => simp [produced, hsel] at hp
      | some attr =>
        simp only [produced, hsel, List.mem_singleton] at hp
        simp [hp]
  · rw [if_neg hok] at hsent
    simp only [hok, false_and, not_false_eq_true, true_and, false_or, hsent]
    rw [← produced_eq_nil_iff_not_valid lib s next, List.eq_nil_iff_forall_not_mem]
    exact forall_congr' fun p => forall_congr' fun _ => by simp

/-- A call balances its resources exactly when it stops at the lookup, or builds its
request and then meets no valid reply but one that is last and honoured. -/
theorem balanced_iff (hne : s.replies env ≠ []) :
    Balanced (s.run lib env ctx next).2.events ↔
      ¬ s.Found env ∨ (s.Built env ∧
        ((s.InvokeOk env ∧ ∀ msg ∈ (s.replies env).dropLast, ¬ s.Valid lib msg) ∨
          (¬ s.InvokeOk env ∧ ∀ msg ∈ s.replies env, ¬ s.Valid lib msg))) := by
  rw [← strings_balanced_iff lib env s next hne]
  by_cases hf : s.Found env
  · by_cases hb : s.Built env
    · have hstrings : s.stringsMade lib env next =
          produced lib (s.select lib) next (s.replies env) := if_pos ⟨hf, hb⟩
      have hdel : s.delivered lib env next = s.sent lib env next := if_pos ⟨hf, hb⟩
      simp only [Balanced, formatted_run, freed_run, hstrings, hdel, hf, hb, not_true_eq_false,
        false_or, true_and]
      exact and_iff_left (buffer_balanced lib env ctx s next hf hb)
    · simp only [Balanced, run_of_not_built lib env ctx s next hf hb, hf, hb, not_true_eq_false,
        false_and, or_self, iff_false, not_and]
      intro _ h
      cases h (by simp)
  · simp only [Balanced, run_of_not_found lib env ctx s next hf, hf, not_false_eq_true, true_or,
      iff_true]
    exact ⟨by simp [formatted, UbusEvent.formatJson?], by simp⟩

end Ledger

def okReply : Blob := .table [(cstr "status", .int32 0), (cstr "message", .string (cstr "ok"))]

theorem balanced_iff_pin :
    Balanced ((controlDevicePin true (cstr "relay") 3).run Blob.blobmsg
      (Blob.answering 0 [.table [], okReply] ⟨false, 0, []⟩) none 1).2.events := by
  apply (balanced_iff Blob.blobmsg (Blob.answering 0 [.table [], okReply] ⟨false, 0, []⟩) none
    (controlDevicePin true (cstr "relay") 3) 1 (by decide)).mpr
  refine Or.inr ⟨by decide, Or.inl ⟨rfl, ?_⟩⟩
  intro msg hmsg
  rw [← select_eq_none_iff]
  have hmsg' : msg ∈ [Blob.table []] := hmsg
  obtain rfl := List.mem_singleton.mp hmsg'
  rfl

/-- Two valid replies: the string of the first one is never freed. -/
theorem not_balanced_pin :
    ¬ Balanced ((controlDevicePin true (cstr "relay") 3).run Blob.blobmsg
      (Blob.answering 0 [okReply, okReply] ⟨false, 0, []⟩) none 1).2.events := by
  intro h
  have hleak := h.1 ⟨1, Blob.formatJson okReply⟩ (by decide)
  revert hleak
  decide

end Sender
end TuyaDaemon.Openwrt
