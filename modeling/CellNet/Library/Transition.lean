import Mathlib.Logic.Relation

/-! Labelled transition systems: finite paths, reachable states, the invariant
rule, runs restricted to steps that meet a condition, and forward simulation. -/

namespace CellNet.Library

/-- A transition system whose labels carry the choices of the environment. -/
structure System (σ ι : Type*) where
  init : σ → Prop
  step : σ → ι → σ → Prop

namespace System

variable {σ ι τ κ : Type*} {S : System σ ι}

/-- `S.Path s ls t` performs the labels `ls` in order, from `s` to `t`. -/
inductive Path (S : System σ ι) : σ → List ι → σ → Prop where
  | nil (s) : Path S s [] s
  | cons {s t u l ls} : S.step s l t → Path S t ls u → Path S s (l :: ls) u

theorem Path.single {s t : σ} {l : ι} (h : S.step s l t) : S.Path s [l] t :=
  .cons h (.nil t)

theorem Path.append {s t u : σ} {ls ms : List ι} (h : S.Path s ls t) (hm : S.Path t ms u) :
    S.Path s (ls ++ ms) u := by
  induction h with
  | nil => exact hm
  | cons hs _ ih => exact .cons hs (ih hm)

/-- Whatever every step preserves is preserved along a path. -/
theorem Path.preserves {P : σ → Prop} {s t : σ} {ls : List ι} (h : S.Path s ls t)
    (hstep : ∀ s l t, P s → S.step s l t → P t) (hs : P s) : P t := by
  induction h with
  | nil => exact hs
  | cons hl _ ih => exact ih (hstep _ _ _ hs hl)

/-- The states that a finite path leads to from an initial state. -/
def Reachable (S : System σ ι) (s : σ) : Prop :=
  ∃ s₀ ls, S.init s₀ ∧ S.Path s₀ ls s

theorem Reachable.init {s : σ} (h : S.init s) : S.Reachable s :=
  ⟨s, [], h, .nil s⟩

theorem Reachable.path {s t : σ} {ls : List ι} (h : S.Reachable s) (hp : S.Path s ls t) :
    S.Reachable t := by
  obtain ⟨s₀, ms, h₀, hs⟩ := h
  exact ⟨s₀, ms ++ ls, h₀, hs.append hp⟩

theorem Reachable.step {s t : σ} {l : ι} (h : S.Reachable s) (hl : S.step s l t) :
    S.Reachable t :=
  h.path (.single hl)

/-- A property that holds initially and that every step preserves. -/
structure Invariant (S : System σ ι) (P : σ → Prop) : Prop where
  init : ∀ s, S.init s → P s
  step : ∀ s l t, P s → S.step s l t → P t

theorem Invariant.reachable {P : σ → Prop} (h : S.Invariant P) {s : σ} (hs : S.Reachable s) :
    P s := by
  obtain ⟨s₀, ls, h₀, hp⟩ := hs
  exact hp.preserves h.step (h.init s₀ h₀)

/-- The runs of `S` all of whose steps meet `ok`. -/
def guard (S : System σ ι) (ok : σ → ι → Prop) : System σ ι where
  init := S.init
  step s l t := ok s l ∧ S.step s l t

theorem Path.of_guard {ok : σ → ι → Prop} {s t : σ} {ls : List ι}
    (h : (S.guard ok).Path s ls t) : S.Path s ls t := by
  induction h with
  | nil s => exact .nil s
  | cons hl _ ih => exact .cons hl.2 ih

theorem Reachable.of_guard {ok : σ → ι → Prop} {s : σ} (h : (S.guard ok).Reachable s) :
    S.Reachable s := by
  obtain ⟨s₀, ls, h₀, hp⟩ := h
  exact ⟨s₀, ls, h₀, hp.of_guard⟩

/-- A path that a partial function computes. -/
theorem Path.of_next (next : σ → ι → Option σ) (h : ∀ s l t, next s l = some t → S.step s l t)
    {ls : List ι} {s t : σ} (hr : ls.foldlM next s = some t) : S.Path s ls t := by
  induction ls generalizing s with
  | nil =>
      cases hr
      exact .nil _
  | cons l ls ih =>
      rw [List.foldlM_cons] at hr
      obtain ⟨u, hu, hr⟩ := Option.bind_eq_some_iff.mp hr
      exact .cons (h _ _ _ hu) (ih hr)

/-- Every step of `S` is matched by a path of `A` between related states. -/
structure Simulation (S : System σ ι) (A : System τ κ) (R : σ → τ → Prop) : Prop where
  init : ∀ s, S.init s → ∃ a, A.init a ∧ R s a
  step : ∀ s l t a, R s a → S.step s l t → ∃ ls b, A.Path a ls b ∧ R t b

theorem Simulation.reachable {A : System τ κ} {R : σ → τ → Prop} (h : Simulation S A R)
    {s : σ} (hs : S.Reachable s) : ∃ a, A.Reachable a ∧ R s a := by
  refine Invariant.reachable (P := fun s => ∃ a, A.Reachable a ∧ R s a) ⟨?_, ?_⟩ hs
  · intro s h₀
    obtain ⟨a, ha, hr⟩ := h.init s h₀
    exact ⟨a, .init ha, hr⟩
  · rintro s l t ⟨a, ha, hr⟩ hl
    obtain ⟨ls, b, hp, hb⟩ := h.step s l t a hr hl
    exact ⟨b, ha.path hp, hb⟩

end System

end CellNet.Library
