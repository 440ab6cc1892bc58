import CellNet.Library.Loop
import Mathlib.Data.List.Infix

/-! Greedy parsing of a symbol stream into length-delimited frames. The rule that
finds the first frame may be arbitrary as long as later symbols cannot change it;
parsing is then independent of how the stream was cut into pieces. -/

namespace CellNet.Library

/-- `frame? xs` is the length of the first frame of `xs`, once it has arrived. -/
structure Framing (α : Type*) where
  frame? : List α → Option ℕ
  nil : frame? [] = none
  le_length : ∀ {xs n}, frame? xs = some n → n ≤ xs.length
  stable : ∀ {xs n} ys, frame? xs = some n → frame? (xs ++ ys) = some n

namespace Framing

variable {α : Type*} (F : Framing α)

/-- `F.Consumes xs ms rest` splits the frames `ms` off the front of `xs`. -/
inductive Consumes : List α → List (List α) → List α → Prop where
  | nil (xs) : Consumes xs [] xs
  | cons {xs n ms rest} : F.frame? xs = some n → Consumes (xs.drop n) ms rest →
      Consumes xs (xs.take n :: ms) rest

/-- A complete greedy parse stops only where no further frame has arrived. -/
def Parses (xs : List α) (ms : List (List α)) (rest : List α) : Prop :=
  F.Consumes xs ms rest ∧ F.frame? rest = none

def parseFuel : ℕ → List α → List (List α) × List α
  | 0, xs => ([], xs)
  | fuel + 1, xs =>
      match F.frame? xs with
      | none => ([], xs)
      | some n =>
          ((xs.take n) :: (parseFuel fuel (xs.drop n)).1, (parseFuel fuel (xs.drop n)).2)

/-- The greedy parser of the whole stream. -/
def parse (xs : List α) : List (List α) × List α :=
  F.parseFuel xs.length xs

/-- The positions at which the greedy parse of `xs` looks for a frame. -/
inductive Boundary (xs : List α) : ℕ → Prop where
  | zero : Boundary xs 0
  | next {p n} : Boundary xs p → F.frame? (xs.drop p) = some n → Boundary xs (p + n)

/-- No empty frame stands at a parsed boundary. -/
def Progress (xs : List α) : Prop :=
  ∀ p, F.Boundary xs p → F.frame? (xs.drop p) ≠ some 0

/-- A frame that is announced by its own symbols, whatever follows it. -/
def Framed (f : List α) : Prop :=
  F.frame? f = some f.length

variable {F}

theorem Consumes.append {xs r : List α} {ms : List (List α)} (h : F.Consumes xs ms r)
    {s : List α} {ns : List (List α)} (hr : F.Consumes r ns s) :
    F.Consumes xs (ms ++ ns) s := by
  induction h with
  | nil => exact hr
  | cons hn _ ih => exact .cons hn (ih hr)

/-- Symbols that arrive later stay behind the frames already split off. -/
theorem Consumes.extend {xs r : List α} {ms : List (List α)} (h : F.Consumes xs ms r)
    (ys : List α) : F.Consumes (xs ++ ys) ms (r ++ ys) := by
  induction h with
  | nil xs => exact .nil (xs ++ ys)
  | @cons xs n ms rest hn _ ih =>
      have hle := F.le_length hn
      have ht : (xs ++ ys).take n = xs.take n := List.take_append_of_le_length hle
      have hd : (xs ++ ys).drop n = xs.drop n ++ ys := List.drop_append_of_le_length hle
      rw [← ht]
      exact .cons (F.stable ys hn) (hd ▸ ih)

theorem Consumes.flatten {xs r : List α} {ms : List (List α)} (h : F.Consumes xs ms r) :
    xs = ms.flatten ++ r := by
  induction h with
  | nil => rfl
  | @cons xs n ms rest hn _ ih =>
      rw [List.flatten_cons, List.append_assoc, ← ih, List.take_append_drop]

/-- Frames whose own symbols announce them are split off one by one, in order. -/
theorem Consumes.framed {xs r : List α} {ms : List (List α)} (h : F.Consumes xs ms r)
    {fs : List (List α)} {tail : List α} (hf : ∀ f ∈ fs, F.Framed f)
    (he : xs ++ tail = fs.flatten) : ∃ gs, fs = ms ++ gs ∧ r ++ tail = gs.flatten := by
  induction h generalizing fs with
  | nil => exact ⟨fs, rfl, he⟩
  | @cons xs n ms rest hn _ ih =>
      cases fs with
      | nil =>
          have hx : xs = [] := (List.append_eq_nil_iff.mp (by simpa using he)).1
          rw [hx, F.nil] at hn
          cases hn
      | cons f fs =>
          rw [List.flatten_cons] at he
          have hlen : n = f.length := by
            have h₁ := F.stable tail hn
            rw [he, F.stable fs.flatten (hf f (by simp))] at h₁
            exact (Option.some.inj h₁).symm
          have hle := F.le_length hn
          have ht : xs.take n = f := by
            have ha : (xs ++ tail).take n = xs.take n := List.take_append_of_le_length hle
            rw [← ha, he, hlen, List.take_left]
          have hd : xs.drop n ++ tail = fs.flatten := by
            rw [← List.drop_append_of_le_length hle, he, hlen, List.drop_left]
          obtain ⟨gs, rfl, hg⟩ := ih (fun g hg => hf g (by simp [hg])) hd
          exact ⟨gs, by rw [ht, List.cons_append], hg⟩

/-! ### Existence and uniqueness of the complete parse -/

theorem Parses.unique {xs r s : List α} {ms ns : List (List α)} (h : F.Parses xs ms r)
    (h' : F.Parses xs ns s) : ms = ns ∧ r = s := by
  obtain ⟨hc, hr⟩ := h
  induction hc generalizing ns with
  | nil xs =>
      obtain ⟨hc', _⟩ := h'
      cases hc' with
      | nil => exact ⟨rfl, rfl⟩
      | cons hn _ => rw [hr] at hn; cases hn
  | cons hn _ ih =>
      obtain ⟨hc', hs⟩ := h'
      cases hc' with
      | nil => rw [hs] at hn; cases hn
      | cons hm ht =>
          obtain rfl := Option.some.inj (hn.symm.trans hm)
          obtain ⟨rfl, rfl⟩ := ih ⟨ht, hs⟩ hr
          exact ⟨rfl, rfl⟩

theorem boundary_drop {xs : List α} {n : ℕ} (hn : F.frame? xs = some n) {p : ℕ}
    (h : F.Boundary (xs.drop n) p) : F.Boundary xs (n + p) := by
  induction h with
  | zero => simpa using Boundary.next .zero (by simpa using hn)
  | next _ hk ih =>
      rw [← Nat.add_assoc]
      exact .next ih (by rwa [List.drop_drop] at hk)

theorem Progress.drop {xs : List α} {n : ℕ} (h : F.Progress xs) (hn : F.frame? xs = some n) :
    F.Progress (xs.drop n) := by
  intro p hp
  rw [List.drop_drop]
  exact h _ (boundary_drop hn hp)

theorem Progress.pos {xs : List α} {n : ℕ} (h : F.Progress xs) (hn : F.frame? xs = some n) :
    0 < n := by
  refine Nat.pos_of_ne_zero fun h₀ => h 0 .zero ?_
  rw [List.drop_zero, hn, h₀]

theorem Progress.consumes {xs r : List α} {ms : List (List α)} (hp : F.Progress xs)
    (h : F.Consumes xs ms r) : F.Progress r := by
  induction h with
  | nil => exact hp
  | cons hn _ ih => exact ih (hp.drop hn)

/-- Nonempty frames are at most as many as the symbols they consist of. -/
theorem Consumes.length_le {xs r : List α} {ms : List (List α)} (h : F.Consumes xs ms r)
    (hp : F.Progress xs) : ms.length ≤ xs.length := by
  induction h with
  | nil => exact Nat.zero_le _
  | cons hn _ ih =>
      have hpos := hp.pos hn
      have hle := F.le_length hn
      have := ih (hp.drop hn)
      rw [List.length_drop] at this
      rw [List.length_cons]
      omega

theorem boundary_cases {xs : List α} {n : ℕ} (hn : F.frame? xs = some n) {p : ℕ}
    (h : F.Boundary xs p) : p = 0 ∨ ∃ q, p = n + q ∧ F.Boundary (xs.drop n) q := by
  induction h with
  | zero => exact .inl rfl
  | @next p k _ hk ih =>
      rcases ih with rfl | ⟨q, rfl, hq⟩
      · rw [List.drop_zero, hn] at hk
        obtain rfl := Option.some.inj hk
        exact .inr ⟨0, by simp, .zero⟩
      · exact .inr ⟨q + k, by omega, .next hq (by rwa [List.drop_drop])⟩

/-- The greedy parse completes exactly when it meets no empty frame. -/
theorem progress_iff (xs : List α) : F.Progress xs ↔ ∃ ms r, F.Parses xs ms r := by
  constructor
  · intro h
    induction hlen : xs.length using Nat.strong_induction_on generalizing xs with
    | _ len ih =>
        cases hn : F.frame? xs with
        | none => exact ⟨[], xs, .nil xs, hn⟩
        | some n =>
            have hpos := h.pos hn
            have hle := F.le_length hn
            obtain ⟨ms, r, hc, hr⟩ := ih (xs.drop n).length
              (by rw [List.length_drop]; omega) (xs.drop n) (h.drop hn) rfl
            exact ⟨_, r, .cons hn hc, hr⟩
  · rintro ⟨ms, r, hc, hr⟩
    induction hc with
    | nil xs =>
        intro p hp
        cases hp with
        | zero => simp [hr]
        | @next p n hp hk =>
            have hb : ∀ q, F.Boundary xs q → q = 0 := by
              intro q hq
              induction hq with
              | zero => rfl
              | next _ hk ih => rw [ih, List.drop_zero, hr] at hk; cases hk
            rw [hb p hp, List.drop_zero, hr] at hk
            cases hk
    | @cons xs n ms rest hn ht ih =>
        intro p hp hz
        rcases boundary_cases hn hp with rfl | ⟨q, rfl, hq⟩
        · rw [List.drop_zero, hn] at hz
          obtain rfl := Option.some.inj hz
          exact ih hr 0 .zero (by simpa using hn)
        · exact ih hr q hq (by rwa [List.drop_drop])

theorem consumes_flatten {fs : List (List α)} (hf : ∀ f ∈ fs, F.Framed f) :
    F.Consumes fs.flatten fs [] := by
  induction fs with
  | nil => exact .nil []
  | cons f fs ih =>
      have hn : F.frame? (f ++ fs.flatten) = some f.length := F.stable _ (hf f (by simp))
      have ht : F.Consumes ((f ++ fs.flatten).drop f.length) fs [] := by
        rw [List.drop_left]
        exact ih fun g hg => hf g (by simp [hg])
      have hc := Consumes.cons hn ht
      rwa [List.take_left] at hc

/-- Self-announcing frames leave no empty frame at a boundary. -/
theorem progress_flatten {fs : List (List α)} (hf : ∀ f ∈ fs, F.Framed f) :
    F.Progress fs.flatten :=
  (progress_iff _).mpr ⟨fs, [], consumes_flatten hf, F.nil⟩

theorem Progress.of_append {xs ys : List α} (h : F.Progress (xs ++ ys)) : F.Progress xs := by
  have hb : ∀ p, F.Boundary xs p → F.Boundary (xs ++ ys) p ∧ p ≤ xs.length := by
    intro p hp
    induction hp with
    | zero => exact ⟨.zero, Nat.zero_le _⟩
    | @next p n _ hk ih =>
        have hle := F.le_length hk
        rw [List.length_drop] at hle
        have hk' : F.frame? ((xs ++ ys).drop p) = some n := by
          rw [List.drop_append_of_le_length ih.2]
          exact F.stable ys hk
        exact ⟨.next ih.1 hk', by omega⟩
  intro p hp hz
  refine h p (hb p hp).1 ?_
  rw [List.drop_append_of_le_length (hb p hp).2]
  exact F.stable ys hz

theorem Parses.parseFuel_eq {xs r : List α} {ms : List (List α)} (h : F.Parses xs ms r)
    {fuel : ℕ} (hf : xs.length ≤ fuel) : F.parseFuel fuel xs = (ms, r) := by
  have hp := (progress_iff xs).mpr ⟨ms, r, h⟩
  obtain ⟨hc, hr⟩ := h
  induction hc generalizing fuel with
  | nil xs => cases fuel <;> simp [parseFuel, hr]
  | @cons xs n ms rest hn ht ih =>
      have hpos := hp.pos hn
      have hle := F.le_length hn
      cases fuel with
      | zero => omega
      | succ fuel =>
          have hf' : (xs.drop n).length ≤ fuel := by rw [List.length_drop]; omega
          simp [parseFuel, hn, ih hf' (hp.drop hn) hr]

theorem Parses.parse_eq {xs r : List α} {ms : List (List α)} (h : F.Parses xs ms r) :
    F.parse xs = (ms, r) :=
  h.parseFuel_eq le_rfl

/-! ### Loops that pop one frame per iteration -/

section Loops

variable {β : Type*}

/-- Under `I`, `μ` is the length of `content`, the test of the loop looks for a first
frame of it, and the body removes exactly that frame. -/
structure PopsFrames (F : Framing α) (I : β → Prop) (content : β → List α) (μ : β → ℤ)
    (test : β → Option Bool) (body : β → β → Prop) : Prop where
  size : ∀ {x}, I x → μ x = (content x).length
  test_eq : ∀ {x}, I x → test x = some (F.frame? (content x)).isSome
  total : ∀ {x n}, I x → F.frame? (content x) = some n → ∃ y, body x y
  pops : ∀ {x y n}, I x → F.frame? (content x) = some n → body x y →
    I y ∧ content y = (content x).drop n

variable {I : β → Prop} {content : β → List α} {μ : β → ℤ} {test : β → Option Bool}
  {body : β → β → Prop}

/-- Any run that leaves the loop has completed the greedy parse of its buffer. -/
theorem PopsFrames.parses (h : F.PopsFrames I content μ test body) {n : ℕ} {x y : β}
    (hw : Whiles test body n x y) (hx : I x) : ∃ ms, F.Parses (content x) ms (content y) := by
  induction hw with
  | stop ht =>
      rw [h.test_eq hx, Option.some.injEq, Option.isSome_eq_false_iff,
        Option.isNone_iff_eq_none] at ht
      exact ⟨[], .nil _, ht⟩
  | iterate ht hb _ ih =>
      rw [h.test_eq hx, Option.some.injEq, Option.isSome_iff_exists] at ht
      obtain ⟨k, hk⟩ := ht
      obtain ⟨hy, hc⟩ := h.pops hx hk hb
      obtain ⟨ms, hms, hr⟩ := ih hy
      exact ⟨_, .cons hk (hc ▸ hms), hr⟩

theorem PopsFrames.whiles (h : F.PopsFrames I content μ test body) {ms : List (List α)}
    {xs r : List α} (hp : F.Parses xs ms r) {x : β} (hx : I x) (he : content x = xs) :
    ∃ y, I y ∧ Whiles test (fun x y => body x y ∧ μ y < μ x) ms.length x y := by
  have hpr := (progress_iff xs).mpr ⟨ms, r, hp⟩
  obtain ⟨hc, hr⟩ := hp
  induction hc generalizing x with
  | nil xs => exact ⟨x, hx, .stop (by rw [h.test_eq hx, he, hr]; rfl)⟩
  | @cons xs n ms rest hn _ ih =>
      subst he
      obtain ⟨y, hb⟩ := h.total hx hn
      obtain ⟨hy, hcy⟩ := h.pops hx hn hb
      obtain ⟨z, hz, hw⟩ := ih hy hcy (hpr.drop hn) hr
      refine ⟨z, hz, .iterate (by rw [h.test_eq hx, hn]; rfl) ⟨hb, ?_⟩ hw⟩
      have hpos := hpr.pos hn
      have hle := F.le_length hn
      rw [h.size hx, h.size hy, hcy, List.length_drop]
      omega

/-- Such a loop ends, shrinking its buffer in every iteration, exactly when no empty
frame stands at a boundary; it then runs at most as often as symbols are buffered. -/
theorem PopsFrames.ends_iff (h : F.PopsFrames I content μ test body) {x : β} (hx : I x) :
    (∃ (n : ℕ) (y : β), (n : ℤ) ≤ μ x ∧
        Whiles test (fun x y => body x y ∧ μ y < μ x) n x y) ↔
      F.Progress (content x) := by
  constructor
  · rintro ⟨n, y, _, hw⟩
    obtain ⟨ms, hp⟩ := h.parses (hw.imp fun _ _ hb => hb.1) hx
    exact (progress_iff _).mpr ⟨ms, _, hp⟩
  · intro hp
    obtain ⟨ms, r, hms⟩ := (progress_iff _).mp hp
    obtain ⟨y, hy, hw⟩ := h.whiles hms hx rfl
    exact ⟨ms.length, y, hw.length_le μ (h.size hy ▸ Int.natCast_nonneg _), hw⟩

end Loops

end Framing

end CellNet.Library
