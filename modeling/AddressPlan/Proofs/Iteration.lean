/-!
Iterators: states with a step that yields an item and the next state, or comes to its end. A step that is carried out on
machine words may also have no result, and what would go on from there yields nothing at all.
-/

namespace AddressPlan

variable {σ α : Type} {step : σ → Option (Option (α × σ))} {s t : σ} {as bs : List α}

/-- All that an iterator yields from a state to its end. -/
inductive Yields (step : σ → Option (Option (α × σ))) : σ → List α → Prop where
  | done {s : σ} (h : step s = some none) : Yields step s []
  | next {s t : σ} {a : α} {as : List α} (h : step s = some (some (a, t))) (rest : Yields step t as) : Yields step s (a :: as)

/-- Two runs from one state are the same. -/
theorem Yields.unique (hs : Yields step s as) : ∀ {bs : List α}, Yields step s bs → bs = as := by
  induction hs with
  | done h =>
    intro bs hbs
    cases hbs with
    | done => rfl
    | next h' => exact nomatch h.symm.trans h'
  | next h _ ih =>
    intro bs hbs
    cases hbs with
    | done h' => exact nomatch h.symm.trans h'
    | next h' rest =>
      cases h.symm.trans h'
      rw [ih rest]

theorem Yields.iff_eq (hs : Yields step s as) : Yields step s bs ↔ bs = as :=
  ⟨hs.unique, fun h => h ▸ hs⟩

end AddressPlan
