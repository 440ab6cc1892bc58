import CellNet.Library.Transition
import Mathlib.Data.Set.Basic

/-! What a transition system shows of its states along its runs, and the rule by which one system
shows no more than another: each of its steps is matched by one step of the other. -/

namespace CellNet.Library

namespace System

variable {σ ι τ κ ω : Type*} {S : System σ ι} {A : System τ κ} {obs : σ → ω} {obs' : τ → ω}

/-- A run of `S` ends in `s`, and `vs` is what it shows of its states, one after the other. -/
inductive Shows (S : System σ ι) (obs : σ → ω) : σ → List ω → Prop where
  | init {s} : S.init s → Shows S obs s [obs s]
  | step {s l t vs} : Shows S obs s vs → S.step s l t → Shows S obs t (vs ++ [obs t])

/-- All that the runs of `S` can show. -/
def Shown (S : System σ ι) (obs : σ → ω) : Set (List ω) := {vs | ∃ s, S.Shows obs s vs}

/-- Every step of `S` is matched by a step of `A`, and related states look the same. -/
structure Lockstep (S : System σ ι) (A : System τ κ) (obs : σ → ω) (obs' : τ → ω)
    (R : σ → τ → Prop) : Prop where
  init : ∀ s, S.init s → ∃ a, A.init a ∧ R s a
  step : ∀ s l t a, R s a → S.step s l t → ∃ m b, A.step a m b ∧ R t b
  obs : ∀ s a, R s a → obs s = obs' a

theorem Lockstep.shows {R : σ → τ → Prop} (h : Lockstep S A obs obs' R) {s : σ} {vs : List ω}
    (hs : S.Shows obs s vs) : ∃ a, A.Shows obs' a vs ∧ R s a := by
  induction hs with
  | init h₀ =>
      obtain ⟨a, ha, hr⟩ := h.init _ h₀
      exact ⟨a, h.obs _ a hr ▸ .init ha, hr⟩
  | step _ hl ih =>
      obtain ⟨a, ha, hr⟩ := ih
      obtain ⟨m, b, hm, hb⟩ := h.step _ _ _ a hr hl
      exact ⟨b, h.obs _ b hb ▸ ha.step hm, hb⟩

theorem Lockstep.shown {R : σ → τ → Prop} (h : Lockstep S A obs obs' R) :
    S.Shown obs ⊆ A.Shown obs' := by
  intro vs hvs
  obtain ⟨s, hs⟩ := hvs
  obtain ⟨a, ha, -⟩ := h.shows hs
  exact ⟨a, ha⟩

/-- What is shown along a path from an initial state. -/
theorem Shows.path {s t : σ} {ls : List ι} {vs : List ω} (h : S.Shows obs s vs)
    (hp : S.Path s ls t) : ∃ us, S.Shows obs t (vs ++ us) := by
  induction hp generalizing vs with
  | nil => exact ⟨[], by simpa using h⟩
  | cons hl _ ih =>
      obtain ⟨us, hus⟩ := ih (h.step hl)
      exact ⟨_ :: us, by simpa using hus⟩

end System

end CellNet.Library
