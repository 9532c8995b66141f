namespace SlipScan.Foundation.Histories

variable {σ ε : Type} (step : σ → ε → σ)

/-- Each event of a history meets the condition `C` in the state in which it happens. -/
def Along (C : σ → ε → Prop) : σ → List ε → Prop
  | _, [] => True
  | s, e :: es => C s e ∧ Along C (step s e) es

variable {step} {C C' : σ → ε → Prop} {s : σ} {es es' : List ε}

@[simp]
theorem along_append : Along step C s (es ++ es') ↔
    Along step C s es ∧ Along step C (es.foldl step s) es' := by
  induction es generalizing s with
  | nil => exact (and_iff_right trivial).symm
  | cons e es ih =>
    rw [List.cons_append, Along, ih, List.foldl_cons, Along, and_assoc]

/-- What holds at first and is kept by each event of a history holds after it. -/
theorem Along.invariant {I : σ → Prop} (h : Along step C s es) (hs : I s)
    (hstep : ∀ s e, I s → C s e → I (step s e)) : I (es.foldl step s) := by
  induction es generalizing s with
  | nil => exact hs
  | cons e es ih => exact ih h.2 (hstep s e hs h.1)

end SlipScan.Foundation.Histories
