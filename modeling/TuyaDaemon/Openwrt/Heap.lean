import Mathlib.Algebra.GroupWithZero.Nat
import Mathlib.Data.List.Nodup
import TuyaDaemon.Openwrt.Gateway
import TuyaDaemon.Openwrt.SenderResources

/-!
# The heap of the OpenWrt daemon

The strings of the messages and the strings that the callbacks format come from one heap.
What is freed in a run was made in it, no string is freed twice, and the strings that are
lost are counted by the occasions alone.
-/

namespace TuyaDaemon.Openwrt

set_option autoImplicit false

open Daemon EventMachine
open scoped List

def Effect.allocations : Effect → List HeapString
  | parse made => made
  | ubus e => e.formatJson?.toList
  | _ => []

def Effect.frees : Effect → List HeapString
  | delete freed => freed
  | ubus e => e.free?.toList
  | _ => []

def allocations : Event Effect → List HeapString
  | .own e => e.allocations
  | _ => []

def frees : Event Effect → List HeapString
  | .own e => e.frees
  | _ => []

/-! ## Ledgers -/

/-- Between the addresses `a` and `b` the strings `made` were allocated in order, and of
them `freed` were freed and `n` were not. -/
structure Ledger (a b : Nat) (made freed : List HeapString) (n : Nat) : Prop where
  addrs : ∃ k, b = a + k ∧ made.map HeapString.addr = List.range' a k
  balance : ∃ lost, made.Perm (freed ++ lost) ∧ lost.length = n

namespace Ledger
variable {a b c n m : Nat} {made freed made' freed' : List HeapString}

theorem nil (a : Nat) : Ledger a a [] [] 0 := ⟨⟨0, rfl, rfl⟩, [], .refl _, rfl⟩

theorem append (h : Ledger a b made freed n) (h' : Ledger b c made' freed' m) :
    Ledger a c (made ++ made') (freed ++ freed') (n + m) := by
  obtain ⟨⟨k, rfl, haddrs⟩, lost, hperm, rfl⟩ := h
  obtain ⟨⟨l, rfl, haddrs'⟩, lost', hperm', rfl⟩ := h'
  refine ⟨⟨k + l, Nat.add_assoc _ _ _, ?_⟩, lost ++ lost', ?_, List.length_append⟩
  · rw [List.map_append, haddrs, haddrs', List.range'_append_1]
  · calc made ++ made'
      _ ~ (freed ++ lost) ++ (freed' ++ lost') := hperm.append hperm'
      _ ~ freed ++ (freed' ++ (lost ++ lost')) := by
        rw [List.append_assoc]
        exact (List.perm_append_comm_assoc lost freed' lost').append_left freed
      _ = freed ++ freed' ++ (lost ++ lost') := (List.append_assoc _ _ _).symm

/-- What is made first is freed last. -/
theorem wrap (h : Ledger a b made [] made.length) (h' : Ledger b c made' freed' m) :
    Ledger a c (made ++ made') (freed' ++ made) m := by
  obtain ⟨⟨k, rfl, haddrs⟩, _⟩ := h
  obtain ⟨⟨l, rfl, haddrs'⟩, lost, hperm, hlost⟩ := h'
  refine ⟨⟨k + l, Nat.add_assoc _ _ _, ?_⟩, lost, ?_, hlost⟩
  · rw [List.map_append, haddrs, haddrs', List.range'_append_1]
  · calc made ++ made'
      _ ~ made ++ (freed' ++ lost) := hperm.append_left made
      _ ~ freed' ++ (made ++ lost) := List.perm_append_comm_assoc _ _ _
      _ = freed' ++ made ++ lost := (List.append_assoc _ _ _).symm

theorem nodup (h : Ledger a b made freed n) : made.Nodup := by
  obtain ⟨⟨k, _, haddrs⟩, _⟩ := h
  apply List.Nodup.of_map HeapString.addr
  rw [haddrs]
  exact List.nodup_range' 1

end Ledger

/-! ## What an occasion loses -/

section
variable {Attr Data : Type} (lib : Blobmsg Attr Data)

/-- The valid replies of the bus that are not reported. -/
def lostReplies (env : UbusEnv Attr) (s : Sender) : Nat :=
  if s.Found env ∧ s.Built env then
    ((s.replies env).filterMap (s.select lib)).length - (answerText lib env s).toList.length
  else 0

def losses (o : Occasion Attr) : Nat := (o.sender?.map (lostReplies lib o.env)).getD 0

theorem produced_length (select : Attr → Option Attr) (next : Nat) (msgs : List Attr) :
    (produced lib select next msgs).length = (msgs.filterMap select).length := by
  induction msgs generalizing next with
  | nil => rfl
  | cons msg msgs ih => cases hs : select msg <;> simp [produced, hs, ih]

theorem produced_addrs (select : Attr → Option Attr) (next : Nat) (msgs : List Attr) :
    (produced lib select next msgs).map HeapString.addr =
      List.range' next (produced lib select next msgs).length := by
  induction msgs generalizing next with
  | nil => rfl
  | cons msg msgs ih =>
    cases hs : select msg with
    | none => simp only [produced, hs, ih]
    | some attr =>
      simp only [produced, hs, List.map_cons, ih, List.length_cons]
      rfl

namespace Sender
variable (env : UbusEnv Attr) (ctx : Option UbusContext) (s : Sender) (next : Nat)

theorem allocations_run :
    ((s.run lib env ctx next).2.events.map Effect.ubus).flatMap Effect.allocations =
      s.stringsMade lib env next := by
  rw [← formatted_run lib env ctx s next, formatted, List.filterMap_eq_flatMap_toList,
    List.flatMap_map]
  rfl

theorem frees_run :
    ((s.run lib env ctx next).2.events.map Effect.ubus).flatMap Effect.frees =
      (s.delivered lib env next).toList := by
  rw [← freed_run lib env ctx s next, freed, List.filterMap_eq_flatMap_toList,
    List.flatMap_map]
  rfl

theorem ledger_run (h : s.Found env → s.Built env → s.InvokeOk env → s.replies env ≠ []) :
    Ledger next (s.run lib env ctx next).2.next
      (((s.run lib env ctx next).2.events.map Effect.ubus).flatMap Effect.allocations)
      (((s.run lib env ctx next).2.events.map Effect.ubus).flatMap Effect.frees)
      (lostReplies lib env s) := by
  rw [allocations_run, frees_run]
  by_cases hfb : s.Found env ∧ s.Built env
  · have hlen := produced_length lib (s.select lib) next (s.replies env)
    have htext := s.responseText_eq lib env next
    rw [responseText_of_replies (h hfb.1 hfb.2)] at htext
    rw [run_of_built lib env ctx s next hfb.1 hfb.2]
    simp only [stringsMade, delivered, lostReplies, if_pos hfb]
    refine ⟨⟨_, rfl, produced_addrs lib _ next _⟩, ?_⟩
    rw [← hlen, ← htext]
    cases hsent : s.sent lib env next with
    | none => exact ⟨_, .refl _, rfl⟩
    | some p =>
      have hok : s.InvokeOk env := by
        by_contra hok
        rw [sent, if_neg fun hs => hok hs.1] at hsent
        cases hsent
      have hmem := sent_mem_produced next (h hfb.1 hfb.2 hok) hsent
      exact ⟨_, List.perm_cons_erase hmem, List.length_erase_of_mem hmem⟩
  · obtain ⟨_, hrun, _⟩ := run_of_stopped lib env ctx s next hfb
    rw [hrun]
    simp only [stringsMade, delivered, lostReplies, if_neg hfb]
    exact .nil next

end Sender

/-! ## The program -/

variable {lib}

/-- The ledger of a part of a run, between two memories. -/
abbrev Kept (m m' : Memory) (es : List Effect) (n : Nat) : Prop :=
  Ledger m.next m'.next (es.flatMap Effect.allocations) (es.flatMap Effect.frees) n

theorem allocations_own (es : List Effect) :
    (es.map Event.own).flatMap allocations = es.flatMap Effect.allocations := by
  rw [List.flatMap_map]
  rfl

theorem frees_own (es : List Effect) :
    (es.map Event.own).flatMap frees = es.flatMap Effect.frees := by
  rw [List.flatMap_map]
  rfl

/-- The strings of a parse tree, as a ledger that is not closed yet. -/
theorem ledger_parse (decode : Decoder) (next : Nat) (text : Option CString) :
    Ledger next (CJson.parse decode next text).2
      (CJson.stringsOf (CJson.parse decode next text).1.toList) []
      (CJson.stringsOf (CJson.parse decode next text).1.toList).length := by
  refine ⟨?_, _, .refl _, rfl⟩
  unfold CJson.parse
  split
  · exact ⟨0, rfl, rfl⟩
  · rename_i j _
    obtain ⟨k, hnext, haddrs⟩ := CJson.build_addrs none next j
    refine ⟨k, hnext, ?_⟩
    simpa [CJson.stringsOf] using haddrs

theorem ledger_executeAction {env : ActionEnv Attr} {ctx : Option UbusContext}
    {dataString : Option CString} {next n : Nat} {es : List Effect}
    (h : executeAction lib env ctx dataString next = .ok (n, es))
    (hanswered : Answered (.action (dataString.bind env.decode) env.undefinedCast env.ubus)) :
    Ledger next n (es.flatMap Effect.allocations) (es.flatMap Effect.frees)
      (losses lib (.action (dataString.bind env.decode) env.undefinedCast env.ubus)) := by
  rw [executeAction_command] at h
  cases h
  have hparse := ledger_parse env.decode next dataString
  cases hc : commandOf env.undefinedCast (dataString.bind env.decode) with
  | none =>
    simp only [losses, Occasion.sender?, hc]
    simpa [performed, attempt, Effect.allocations, Effect.frees] using hparse.wrap (.nil _)
  | some s =>
    have hrun := s.ledger_run lib env.ubus ctx (CJson.parse env.decode next dataString).2
      (hanswered s hc)
    simp only [losses, Occasion.sender?, Occasion.env, hc]
    simpa [performed, attempt, Effect.allocations, Effect.frees] using hparse.wrap hrun

theorem ledger_sendMemoryInfo (env : UbusEnv Attr) (ctx : Option UbusContext) (next : Nat)
    (h : Answered (.memoryDue env)) :
    Ledger next (sendMemoryInfo lib env ctx next).2.next
      (((sendMemoryInfo lib env ctx next).2.events.map Effect.ubus).flatMap Effect.allocations)
      (((sendMemoryInfo lib env ctx next).2.events.map Effect.ubus).flatMap Effect.frees)
      (losses lib (.memoryDue env)) :=
  Sender.ledger_run lib env ctx .sendMemoryInfo next (h .sendMemoryInfo rfl)

variable (lib) in
/-- What is lost on several occasions. -/
def losesAt (os : List (Occasion Attr)) : Nat := (os.map (losses lib)).sum

theorem losesAt_append (os os' : List (Occasion Attr)) :
    losesAt lib (os ++ os') = losesAt lib os + losesAt lib os' := by
  rw [losesAt, List.map_append, List.sum_append]
  rfl

theorem ledger_onMessages {env : ActionEnv Attr} {ctx : Option UbusContext}
    {msg : TuyalinkMessage} {next n : Nat} {es : List Effect}
    (h : onMessages lib env ctx msg next = .ok (n, es))
    (hanswered : ∀ o ∈ callbackOccasions (.onMessages msg env), Answered o) :
    Ledger next n (es.flatMap Effect.allocations) (es.flatMap Effect.frees)
      (losesAt lib (callbackOccasions (.onMessages msg env))) := by
  obtain ⟨type, dataString⟩ := msg
  cases type with
  | actionExecute =>
    exact ledger_executeAction h (hanswered _ List.mem_cons_self)
  | _ =>
    cases h
    exact .nil next

theorem kept_callback {m m' : Memory} {cb : Callback (UbusEnv Attr) (ActionEnv Attr)}
    {es : List Effect} (h : callback lib m cb = some (m', es))
    (hanswered : ∀ o ∈ callbackOccasions cb, Answered o) :
    Kept m m' es (losesAt lib (callbackOccasions cb)) := by
  rcases callback_handles h with ⟨env, rfl, hnext, rfl⟩ | ⟨msg, env, fs, rfl, hrun, rfl⟩ |
    ⟨rfl, hnext, rfl⟩
  · rw [Kept, hnext]
    exact ledger_sendMemoryInfo env m.userData m.next (hanswered _ List.mem_cons_self)
  · have hledger := ledger_onMessages hrun hanswered
    exact hledger
  · rw [Kept, hnext]
    exact .nil m.next

theorem kept_callbacks {m m' : Memory} {cbs : List (Callback (UbusEnv Attr) (ActionEnv Attr))}
    {es : List Effect} (run : Run (callback lib) m cbs es m')
    (hanswered : ∀ o ∈ cbs.flatMap callbackOccasions, Answered o) :
    Kept m m' es (losesAt lib (cbs.flatMap callbackOccasions)) := by
  induction run with
  | nil m => exact .nil m.next
  | cons hstep _ ih =>
    rw [List.flatMap_cons, List.forall_mem_append] at hanswered
    have hledger := (kept_callback hstep hanswered.1).append (ih hanswered.2)
    rw [List.flatMap_cons, losesAt_append]
    simpa only [Kept, List.flatMap_append] using hledger

theorem heap_of_main {e : Effect} (h : e.ofCallback = false) :
    e.allocations = [] ∧ e.frees = [] := by
  cases e with
  | parse made => cases h
  | delete freed => cases h
  | ubus u => cases h
  | _ => exact ⟨rfl, rfl⟩

/-- The calls that `main` makes once leave the heap alone. -/
theorem kept_ask {s : State Pc Memory} {next : Ask → Memory → Outcome} {a : Ask} {pc : Pc}
    {m : Memory} {es : List Effect} (hi : instr s.pc = .ask next)
    (hask : next a s.mem = some (pc, m, es)) : Kept s.mem m es 0 := by
  obtain ⟨hnext, hes⟩ := ask_effects hi hask
  rw [Kept, hnext, List.flatMap_eq_nil_iff.mpr fun e he => (heap_of_main (hes e he)).1,
    List.flatMap_eq_nil_iff.mpr fun e he => (heap_of_main (hes e he)).2]
  exact .nil s.mem.next

theorem kept_step {s t : State Pc Memory} {i : ProgramInput Attr} {es : List (Event Effect)}
    (h : step (program lib) s i = some (t, es)) (hanswered : ∀ o ∈ occasions i, Answered o) :
    Ledger s.mem.next t.mem.next (es.flatMap allocations) (es.flatMap frees)
      (losesAt lib (occasions i)) := by
  cases transition_of_step h with
  | @sdk c next callbacks ret mem gs hi hrun =>
    have hledger := kept_callbacks hrun hanswered
    simp only [List.flatMap_append, List.flatMap_cons, allocations_own, frees_own, allocations,
      frees, List.flatMap_nil, List.append_nil, List.nil_append]
    exact hledger
  | @send next env ok mem gs hi hsend =>
    obtain ⟨rfl, rfl⟩ := periodicSend_cases hsend
    have hledger := @ledger_sendMemoryInfo _ _ lib env s.mem.ubusCtx s.mem.next
      (hanswered _ List.mem_cons_self)
    simp only [List.flatMap_append, List.flatMap_cons, allocations_own, frees_own, allocations,
      frees, List.flatMap_nil, List.append_nil, List.nil_append]
    exact hledger
  | ask hi hask =>
    rw [allocations_own, frees_own]
    exact kept_ask hi hask
  | _ => exact .nil s.mem.next

section Runs
variable {is : List (ProgramInput Attr)} {es : List (Event Effect)} {s t : State Pc Memory}
  (run : Run (step (program lib)) s is es t)
include run

theorem ledger_of_run (hanswered : ∀ o ∈ is.flatMap occasions, Answered o) :
    Ledger s.mem.next t.mem.next (es.flatMap allocations) (es.flatMap frees)
      (losesAt lib (is.flatMap occasions)) := by
  induction run with
  | nil s => exact .nil s.mem.next
  | cons hstep _ ih =>
    rw [List.flatMap_cons, List.forall_mem_append] at hanswered
    have hledger := (kept_step hstep hanswered.1).append (ih hanswered.2)
    rw [List.flatMap_cons, losesAt_append, List.flatMap_append, List.flatMap_append]
    exact hledger

/-- Where every successful invocation has delivered a reply, all strings of a run are different,
what is freed was made in the run and is freed once, and what is not freed is as much as the
replies of the bus say. -/
theorem heap_of_run (hanswered : ∀ o ∈ is.flatMap occasions, Answered o) :
    (es.flatMap allocations).Nodup ∧ ∃ lost,
      (es.flatMap allocations).Perm (es.flatMap frees ++ lost) ∧
        lost.length = ((is.flatMap occasions).map (losses lib)).sum :=
  ⟨(ledger_of_run run hanswered).nodup, (ledger_of_run run hanswered).balance⟩

end Runs
end

theorem heap_of_run_switchesPin : ∃ es t,
    Run (step (program Blob.blobmsg)) start switchesPin es t ∧
      ∃ lost, (es.flatMap allocations).Perm (es.flatMap frees ++ lost) ∧ lost.length = 0 := by
  obtain ⟨es, t, hrun⟩ := switchesPin_run
  obtain ⟨_, lost, hperm, hlost⟩ := heap_of_run hrun answered_switchesPin
  refine ⟨es, t, hrun, lost, hperm, hlost.trans ?_⟩
  decide +kernel

end TuyaDaemon.Openwrt
