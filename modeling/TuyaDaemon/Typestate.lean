import TuyaDaemon.EventMachine

/-!
# Protocols that events obey

A protocol says which event may come next and where it leads. The events of a run obey it if
every step of the machine emits events that the protocol allows, from related states to
related states.
-/

namespace TuyaDaemon.EventMachine

set_option autoImplicit false

universe u v w x
variable {σ : Type u} {ι : Type v} {ε : Type w} {τ : Type x}

abbrev Protocol (τ : Type x) (ε : Type w) := τ → ε → Option τ

namespace Protocol
variable (p : Protocol τ ε)

/-- The state of the protocol after some events; `none` if one of them was not allowed. -/
def after : τ → List ε → Option τ
  | q, [] => some q
  | q, e :: es =>
    match p q e with
    | none => none
    | some r => after r es

variable {p} {q r s : τ} {e : ε} {es fs : List ε}

theorem after_cons_eq_some_iff :
    p.after q (e :: es) = some s ↔ ∃ r, p q e = some r ∧ p.after r es = some s := by
  simp only [after]
  constructor
  · intro h
    split at h
    · cases h
    · rename_i r hr
      exact ⟨r, hr, h⟩
  · rintro ⟨r, hr, h⟩
    rw [hr]
    exact h

theorem after_append_eq_some_iff :
    p.after q (es ++ fs) = some s ↔ ∃ r, p.after q es = some r ∧ p.after r fs = some s := by
  induction es generalizing q with
  | nil => simp [after]
  | cons e es ih =>
    rw [List.cons_append, after_cons_eq_some_iff]
    constructor
    · rintro ⟨r, hr, h⟩
      obtain ⟨m, hm, h⟩ := ih.mp h
      exact ⟨m, after_cons_eq_some_iff.mpr ⟨r, hr, hm⟩, h⟩
    · rintro ⟨m, hm, h⟩
      obtain ⟨r, hr, hm⟩ := after_cons_eq_some_iff.mp hm
      exact ⟨r, hr, ih.mpr ⟨m, hm, h⟩⟩

theorem after_append (h : p.after q es = some r) (h' : p.after r fs = some s) :
    p.after q (es ++ fs) = some s := after_append_eq_some_iff.mpr ⟨r, h, h'⟩

/-- Events that the protocol ignores leave it where it is. -/
theorem after_of_ignored (h : ∀ e ∈ es, p q e = some q) : p.after q es = some q := by
  induction es with
  | nil => rfl
  | cons e es ih =>
    have hrest := ih fun f hf => h f (List.mem_cons_of_mem e hf)
    exact after_cons_eq_some_iff.mpr ⟨q, h e List.mem_cons_self, hrest⟩

/-- What every allowed event keeps holds wherever a sequence of allowed events leads. -/
theorem after_history {P : τ → List ε → Prop}
    (keep : ∀ {q r h e}, P q h → p q e = some r → P r (h ++ [e]))
    (h : p.after q es = some r) {s : List ε} (hq : P q s) : P r (s ++ es) := by
  induction es generalizing q s with
  | nil =>
    cases h
    rwa [List.append_nil]
  | cons e es ih =>
    obtain ⟨m, hm, h⟩ := after_cons_eq_some_iff.mp h
    have hrest := ih h (keep hq hm)
    rwa [List.append_assoc] at hrest

end Protocol

/-- A machine whose steps obey a protocol, as long as their events satisfy `P`, obeys it in
every run of such events. -/
theorem Run.obeys {step : Step σ ι ε} {p : Protocol τ ε} {R : σ → τ → Prop} {P : ε → Prop}
    {s t : σ} {is : List ι} {es : List ε} (run : Run step s is es t)
    (keep : ∀ s i t es q, R s q → step s i = some (t, es) → (∀ e ∈ es, P e) →
      ∃ r, p.after q es = some r ∧ R t r)
    (hes : ∀ e ∈ es, P e) {q : τ} (hs : R s q) : ∃ r, p.after q es = some r ∧ R t r := by
  induction run generalizing q with
  | nil => exact ⟨q, rfl, hs⟩
  | cons hstep _ ih =>
    obtain ⟨hfirst, hrest⟩ := List.forall_mem_append.mp hes
    obtain ⟨r, hr, ht⟩ := keep _ _ _ _ _ hs hstep hfirst
    obtain ⟨r', hr', hu⟩ := ih hrest ht
    exact ⟨r', Protocol.after_append hr hr', hu⟩

/-- What every event of every step satisfies, every event of a run satisfies. -/
theorem Run.forall_events {step : Step σ ι ε} {P : ε → Prop} {s t : σ} {is : List ι}
    {es : List ε} (run : Run step s is es t)
    (h : ∀ s i t es, step s i = some (t, es) → ∀ e ∈ es, P e) : ∀ e ∈ es, P e := by
  induction run with
  | nil =>
    intro e he
    cases he
  | cons hstep _ ih => exact List.forall_mem_append.mpr ⟨h _ _ _ _ hstep, ih⟩

end TuyaDaemon.EventMachine
