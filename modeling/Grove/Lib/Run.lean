import Mathlib.Tactic

/-! # Runs of a deterministic machine under a step condition

A machine is a step function `step : σ → ε → σ`; a run is a list of events folded from a
state.  `Meets step cond s es` says that every step of the run from `s` along `es` meets
`cond` in the state it is taken in.  The rule used everywhere: an invariant that each step
meeting the condition keeps holds at the end of the run (`Meets.invariant`). -/

namespace Grove

variable {σ ε : Type}

/-- The state a run ends in. -/
def exec (step : σ → ε → σ) (s : σ) (es : List ε) : σ := es.foldl step s

@[simp] theorem exec_nil (step : σ → ε → σ) (s : σ) : exec step s [] = s := rfl

@[simp] theorem exec_cons (step : σ → ε → σ) (s : σ) (e : ε) (es : List ε) :
    exec step s (e :: es) = exec step (step s e) es := rfl

theorem exec_append (step : σ → ε → σ) (s : σ) (es es' : List ε) :
    exec step s (es ++ es') = exec step (exec step s es) es' := List.foldl_append

/-- Every step of the run meets `cond` in the state before it. -/
def Meets (step : σ → ε → σ) (cond : σ → ε → Prop) : σ → List ε → Prop
  | _, [] => True
  | s, e :: es => cond s e ∧ Meets step cond (step s e) es

instance Meets.decidable (step : σ → ε → σ) (cond : σ → ε → Prop)
    [∀ s e, Decidable (cond s e)] : ∀ s es, Decidable (Meets step cond s es)
  | _, [] => inferInstanceAs (Decidable True)
  | s, e :: es =>
    have := Meets.decidable step cond (step s e) es
    inferInstanceAs (Decidable (cond s e ∧ Meets step cond (step s e) es))

variable {step : σ → ε → σ} {cond : σ → ε → Prop}

theorem Meets.append {s : σ} {es es' : List ε} :
    Meets step cond s (es ++ es') ↔
      Meets step cond s es ∧ Meets step cond (exec step s es) es' := by
  induction es generalizing s with
  | nil => simp [Meets]
  | cons e es ih => simp [Meets, ih, and_assoc]

theorem Meets.mono {cond' : σ → ε → Prop} {s : σ} {es : List ε}
    (hcond : ∀ s, ∀ e ∈ es, cond s e → cond' s e) (h : Meets step cond s es) : Meets step cond' s es := by
  induction es generalizing s with
  | nil => trivial
  | cons e es ih =>
    exact ⟨hcond s e List.mem_cons_self h.1, ih (fun s e' he' => hcond s e' (List.mem_cons_of_mem _ he')) h.2⟩

theorem Meets.and {cond' : σ → ε → Prop} {s : σ} {es : List ε} (h : Meets step cond s es)
    (h' : Meets step cond' s es) : Meets step (fun s e => cond s e ∧ cond' s e) s es := by
  induction es generalizing s with
  | nil => trivial
  | cons e es ih => exact ⟨⟨h.1, h'.1⟩, ih h.2 h'.2⟩

/-- **Invariant rule.**  What one conditioned step keeps, a conditioned run keeps. -/
theorem Meets.invariant {Inv : σ → Prop} (hstep : ∀ s e, Inv s → cond s e → Inv (step s e))
    {s : σ} {es : List ε} (hs : Inv s) (h : Meets step cond s es) : Inv (exec step s es) := by
  induction es generalizing s with
  | nil => exact hs
  | cons e es ih => exact ih (hstep s e hs h.1) h.2

/-- The invariant rule for a machine whose steps carry no condition. -/
theorem exec_invariant {Inv : σ → Prop} (hstep : ∀ s e, Inv s → Inv (step s e))
    {s : σ} (hs : Inv s) (es : List ε) : Inv (exec step s es) := by
  induction es generalizing s with
  | nil => exact hs
  | cons e es ih => exact ih (hstep s e hs)

/-- A fact that fails at the start of a run and holds at its end becomes true at some step. -/
theorem exec_becomes (P : σ → Prop) {s : σ} {es : List ε} (hs : ¬ P s) (he : P (exec step s es)) :
    ∃ pre e post, es = pre ++ e :: post ∧ ¬ P (exec step s pre) ∧ P (exec step s (pre ++ [e])) := by
  induction es generalizing s with
  | nil => exact absurd he hs
  | cons e es ih =>
    by_cases h : P (step s e)
    · exact ⟨[], e, es, rfl, hs, h⟩
    · obtain ⟨pre, e', post, rfl, hpre, hpost⟩ := ih h he
      exact ⟨e :: pre, e', post, rfl, hpre, hpost⟩

end Grove
