import TuyaDaemon.EventMachine

/-!
# Simulations between machines

A step of the concrete machine is matched by any number of steps of the specification, which
see the inputs and the events through `inputs` and `observe`.
-/

namespace TuyaDaemon.EventMachine

set_option autoImplicit false

universe u v w u' v' w' u'' v'' w''
variable {σ : Type u} {ι : Type v} {ε : Type w} {τ : Type u'} {κ : Type v'} {δ : Type w'}
  {υ : Type u''} {μ : Type v''} {γ : Type w''}

theorem Run.single {step : Step σ ι ε} {s t : σ} {i : ι} {es : List ε}
    (h : step s i = some (t, es)) : Run step s [i] es t := by
  have hrun := Run.cons h (.nil t)
  rwa [List.append_nil] at hrun

theorem Run.trans {step : Step σ ι ε} {s t u : σ} {is js : List ι} {es fs : List ε}
    (run : Run step s is es t) (run' : Run step t js fs u) :
    Run step s (is ++ js) (es ++ fs) u := by
  induction run with
  | nil => exact run'
  | cons h _ ih =>
    rw [List.append_assoc]
    exact .cons h (ih run')

theorem exec_of_run {step : Step σ ι ε} {s t : σ} {is : List ι} {es : List ε}
    (run : Run step s is es t) : exec step s is = some (t, es) := by
  induction run with
  | nil => rfl
  | cons h _ ih => simp only [exec, h, ih]

/-- Where what is observed of a step depends on its input alone, so it is with runs: nothing
that the machine remembers shows. -/
theorem Run.observed {step : Step σ ι ε} {observe : ε → List δ} {react : ι → List δ} {s t : σ}
    {is : List ι} {es : List ε} (run : Run step s is es t)
    (h : ∀ s i t es, step s i = some (t, es) → es.flatMap observe = react i) :
    es.flatMap observe = is.flatMap react := by
  induction run with
  | nil => rfl
  | cons hstep _ ih => rw [List.flatMap_append, List.flatMap_cons, h _ _ _ _ hstep, ih]

/-- What is said of the part before an event may be said of all that precedes it. -/
theorem Precedes.flatMap {φ : List ε → Prop} {e : ε} {f : ι → List ε} {is : List ι}
    (longer : ∀ xs ys, φ ys → φ (xs ++ ys)) (h : ∀ i ∈ is, Precedes φ e (f i)) :
    Precedes φ e (is.flatMap f) := by
  induction is with
  | nil =>
    intro xs ys heq
    cases xs <;> cases heq
  | cons i is ih =>
    have hrest := ih fun j hj => h j (List.mem_cons_of_mem i hj)
    rw [List.flatMap_cons]
    exact (h i List.mem_cons_self).append fun xs ys heq => longer _ _ (hrest xs ys heq)

structure Simulation (step : Step σ ι ε) (spec : Step τ κ δ) (inputs : ι → List κ)
    (observe : ε → List δ) where
  rel : σ → τ → Prop
  simulate : ∀ {s i s' es t}, rel s t → step s i = some (s', es) →
    ∃ t', Run spec t (inputs i) (es.flatMap observe) t' ∧ rel s' t'

namespace Simulation
variable {step : Step σ ι ε} {spec : Step τ κ δ} {inputs : ι → List κ} {observe : ε → List δ}

/-- Every run is a run of the specification. -/
theorem run (S : Simulation step spec inputs observe) {s s' : σ} {is : List ι} {es : List ε}
    {t : τ} (h : S.rel s t) (run : Run step s is es s') :
    ∃ t', Run spec t (is.flatMap inputs) (es.flatMap observe) t' ∧ S.rel s' t' := by
  induction run generalizing t with
  | nil => exact ⟨t, .nil t, h⟩
  | cons hstep _ ih =>
    obtain ⟨t₁, run₁, h₁⟩ := S.simulate h hstep
    obtain ⟨t₂, run₂, h₂⟩ := ih h₁
    refine ⟨t₂, ?_, h₂⟩
    rw [List.flatMap_cons, List.flatMap_append]
    exact run₁.trans run₂

variable {spec' : Step υ μ γ} {inputs' : κ → List μ} {observe' : δ → List γ}

def comp (S : Simulation step spec inputs observe) (T : Simulation spec spec' inputs' observe') :
    Simulation step spec' (fun i => (inputs i).flatMap inputs')
      (fun e => (observe e).flatMap observe') where
  rel s u := ∃ t, S.rel s t ∧ T.rel t u
  simulate := by
    rintro s i s' es u ⟨t, hst, htu⟩ hstep
    obtain ⟨t', hrun, hst'⟩ := S.simulate hst hstep
    obtain ⟨u', hrun', htu'⟩ := T.run htu hrun
    refine ⟨u', ?_, t', hst', htu'⟩
    rw [List.flatMap_assoc] at hrun'
    exact hrun'

end Simulation
end TuyaDaemon.EventMachine
