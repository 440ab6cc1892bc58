import Mathlib.Data.List.Pairwise

/-! Loops that call a function of some of the objects they pass, each object at most once. What
a call finds of its object is then what the loop has found. -/

namespace CellNet.Library

variable {σ β κ γ α : Type*}

/-- In a run of the loop over `l` from `x` the object `k` is called with `g` in the state `y`. -/
def Calls (body : σ → β → Option σ) (call : σ → β → Option (κ × γ)) (l : List β) (x y : σ)
    (k : κ) (g : γ) : Prop :=
  ∃ before b after, l = before ++ b :: after ∧ before.foldlM body x = some y ∧
    call y b = some (k, g)

/-- Under `I`, a round changes no object but the one it calls, of which `upd` tells the change;
objects may disappear. The objects that an element may call are told by `target`. -/
structure CallLoop (body : σ → β → Option σ) (call : σ → β → Option (κ × γ))
    (view : σ → κ → Option α) (upd : γ → α → α) (target : β → κ → Prop) (I : σ → Prop) : Prop where
  inv : ∀ {x y b}, I x → body x b = some y → I y
  target : ∀ {x b k g}, I x → call x b = some (k, g) → target b k
  called : ∀ {x y b k g a}, I x → body x b = some y → call x b = some (k, g) →
    view y k = some a → ∃ a₀, view x k = some a₀ ∧ a = upd g a₀
  others : ∀ {x y b k a}, I x → body x b = some y → (∀ g, call x b ≠ some (k, g)) →
    view y k = some a → view x k = some a

variable {body : σ → β → Option σ} {call : σ → β → Option (κ × γ)}

theorem Calls.cons {l : List β} {b : β} {x y z : σ} {k : κ} {g : γ} (hb : body x b = some y)
    (h : Calls body call l y z k g) : Calls body call (b :: l) x z k g := by
  obtain ⟨before, b', after, rfl, hz, hc⟩ := h
  refine ⟨b :: before, b', after, rfl, ?_, hc⟩
  rw [List.foldlM_cons, hb]
  exact hz

namespace CallLoop

variable {view : σ → κ → Option α} {upd : γ → α → α} {target : β → κ → Prop} {I : σ → Prop}

theorem foldlM_inv (h : CallLoop body call view upd target I) {l : List β} {x y : σ} (hx : I x)
    (hy : l.foldlM body x = some y) : I y := by
  induction l generalizing x with
  | nil =>
      obtain rfl := Option.some.inj hy
      exact hx
  | cons b l ih =>
      rw [List.foldlM_cons] at hy
      obtain ⟨z, hz, hy⟩ := Option.bind_eq_some_iff.mp hy
      exact ih (h.inv hx hz) hy

/-- An object that is not called stays as it was. -/
theorem uncalled (h : CallLoop body call view upd target I) {l : List β} {x y : σ} {k : κ}
    (hx : I x) (hy : l.foldlM body x = some y) (hk : ∀ z g, ¬ Calls body call l x z k g) {a : α}
    (ha : view y k = some a) : view x k = some a := by
  induction l generalizing x with
  | nil =>
      obtain rfl := Option.some.inj hy
      exact ha
  | cons b l ih =>
      rw [List.foldlM_cons] at hy
      obtain ⟨z, hz, hy⟩ := Option.bind_eq_some_iff.mp hy
      have hz' : view z k = some a := ih (h.inv hx hz) hy fun u g hc => hk u g (hc.cons hz)
      exact h.others hx hz (fun g hg => hk x g ⟨[], b, l, rfl, rfl, hg⟩) hz'

/-- An element that cannot call an object does not. -/
theorem not_calls (h : CallLoop body call view upd target I) {l : List β} {x : σ} {k : κ}
    (hx : I x) (hk : ∀ b ∈ l, ¬ target b k) (z : σ) (g : γ) : ¬ Calls body call l x z k g := by
  intro hc
  obtain ⟨before, b, after, rfl, hz, hcall⟩ := hc
  exact hk b (by simp) (h.target (h.foldlM_inv hx hz) hcall)

/-- No two elements can call the same object. -/
def Apart (target : β → κ → Prop) (l : List β) : Prop :=
  l.Pairwise fun b b' => ∀ k, target b k → ¬ target b' k

/-- The call finds its object as it was when the loop began. -/
theorem view_of_calls (h : CallLoop body call view upd target I) {l : List β} {x y : σ} {k : κ}
    {g : γ} (hx : I x) (hl : Apart target l) (hc : Calls body call l x y k g) {a : α}
    (ha : view y k = some a) : view x k = some a := by
  obtain ⟨before, b, after, rfl, hy, hcall⟩ := hc
  have hb := h.target (h.foldlM_inv hx hy) hcall
  refine h.uncalled hx hy (h.not_calls hx ?_) ha
  intro b' hb' hk
  exact (List.pairwise_append.mp hl).2.2 b' hb' b (by simp) k hk hb

/-- When the loop ends, an object is as it was, or as its only call has left it. -/
theorem view_cases (h : CallLoop body call view upd target I) {l : List β} {x y : σ} {k : κ}
    (hx : I x) (hl : Apart target l) (hy : l.foldlM body x = some y) {a : α}
    (ha : view y k = some a) :
    (view x k = some a ∧ ∀ z g, ¬ Calls body call l x z k g) ∨
      ∃ z g a₀, Calls body call l x z k g ∧ view z k = some a₀ ∧ view x k = some a₀ ∧
        a = upd g a₀ := by
  by_cases hc : ∃ z g, Calls body call l x z k g
  · obtain ⟨z, g, hc⟩ := hc
    have hcalls := hc
    obtain ⟨before, b, after, rfl, hz, hcall⟩ := hc
    rw [List.foldlM_append, hz, Option.bind_eq_bind, Option.bind_some, List.foldlM_cons] at hy
    obtain ⟨u, hu, hy⟩ := Option.bind_eq_some_iff.mp hy
    have hIz := h.foldlM_inv hx hz
    have hb := h.target hIz hcall
    have hafter : ∀ b' ∈ after, ¬ target b' k := fun b' hb' =>
      List.rel_of_pairwise_cons (List.pairwise_append.mp hl).2.1 hb' k hb
    have hu' := h.uncalled (h.inv hIz hu) hy (h.not_calls (h.inv hIz hu) hafter) ha
    obtain ⟨a₀, ha₀, rfl⟩ := h.called hIz hu hcall hu'
    exact .inr ⟨z, g, a₀, hcalls, ha₀, h.view_of_calls hx hl hcalls ha₀, rfl⟩
  · have hno : ∀ z g, ¬ Calls body call l x z k g := fun z g hzg => hc ⟨z, g, hzg⟩
    exact .inl ⟨h.uncalled hx hy hno ha, hno⟩

end CallLoop

end CellNet.Library
