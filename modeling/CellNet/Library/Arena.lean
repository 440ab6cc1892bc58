import CellNet.Library.Regions

/-! Memory in which some of the regions are cut into cells. The extents that can be used, the
cells and the regions that are not cut, do not overlap. -/

namespace CellNet.Library

/-- A region that is cut into `count` cells of `size`. -/
structure Slab where
  buf : ℕ
  size : ℕ
  count : ℕ
deriving Repr, DecidableEq

namespace Slab

def region (S : Slab) : Span :=
  ⟨S.buf, S.size * S.count⟩

def Cell (S : Slab) (a : ℕ) : Prop :=
  ∃ n < S.count, a = S.buf + n * S.size

variable {S : Slab} {a b : ℕ}

theorem Cell.within (h : S.Cell a) : Span.Within ⟨a, S.size⟩ S.region := by
  obtain ⟨n, hn, rfl⟩ := h
  exact Span.cell_within hn

theorem Cell.apart (ha : S.Cell a) (hb : S.Cell b) (h : a ≠ b) :
    Span.Apart ⟨a, S.size⟩ ⟨b, S.size⟩ := by
  obtain ⟨n, -, rfl⟩ := ha
  obtain ⟨m, -, rfl⟩ := hb
  apply Span.cell_apart
  rintro rfl
  exact h rfl

end Slab

/-- Regions, and the slabs that some of them are cut into. -/
structure Arena where
  slab : ℕ → Option Slab
  regions : Regions
  ok : regions.Ok
  buffer : ∀ k S, slab k = some S → regions S.buf = some (S.size * S.count)
  distinct : ∀ k k' S S', slab k = some S → slab k' = some S' → S.buf = S'.buf → k = k'

namespace Arena

variable {A : Arena} {o o' : Option ℕ} {x y : Span} {k a n : ℕ} {S : Slab}

/-- The extents with the number of their slab. -/
inductive Extent (A : Arena) : Option ℕ → Span → Prop where
  | cell {k : ℕ} {S : Slab} {a : ℕ} : A.slab k = some S → S.Cell a → Extent A (some k) ⟨a, S.size⟩
  | whole {a n : ℕ} : A.regions a = some n → (∀ k S, A.slab k = some S → S.buf ≠ a) →
      Extent A none ⟨a, n⟩

theorem size_pos (h : A.slab k = some S) : 0 < S.size :=
  Nat.pos_of_mul_pos_right (A.ok.positive _ _ (A.buffer k S h))

theorem Extent.positive (h : A.Extent o x) : 0 < x.size := by
  cases h with
  | cell hp _ => exact size_pos hp
  | whole ha _ => exact A.ok.positive _ _ ha

/-- Extents of different slabs lie in different regions. -/
theorem Extent.apart_of_ne (hx : A.Extent o x) (hy : A.Extent o' y) (h : o ≠ o') :
    x.Apart y := by
  cases hx with
  | @cell k S a hp hc =>
      cases hy with
      | @cell k' S' b hp' hc' =>
          have hb : S.buf ≠ S'.buf := fun he =>
            h (congrArg some (A.distinct k k' S S' hp hp' he))
          have hr := A.ok.apart _ _ _ _ (A.buffer k S hp) (A.buffer k' S' hp') hb
          exact hr.within hc.within hc'.within
      | @whole b n hb hn =>
          have hr := A.ok.apart _ _ _ _ (A.buffer k S hp) hb (hn k S hp)
          exact hr.within hc.within (.refl _)
  | @whole a n ha hn =>
      cases hy with
      | @cell k' S' b hp' hc' =>
          have hr := A.ok.apart _ _ _ _ ha (A.buffer k' S' hp') (hn k' S' hp').symm
          exact hr.within (.refl _) hc'.within
      | whole _ _ => exact absurd rfl h

theorem Extent.apart (hx : A.Extent o x) (hy : A.Extent o' y) (h : x.start ≠ y.start) :
    x.Apart y := by
  by_cases ho : o = o'
  · subst ho
    cases hx with
    | @cell k S a hp hc =>
        cases hy with
        | @cell _ S' b hp' hc' =>
            obtain rfl := Option.some.inj (hp.symm.trans hp')
            exact hc.apart hc' h
    | whole ha _ =>
        cases hy with
        | whole hb _ => exact A.ok.apart _ _ _ _ ha hb h
  · exact hx.apart_of_ne hy ho

/-- An extent is known by its start. -/
theorem Extent.unique (hx : A.Extent o x) (hy : A.Extent o' y) (h : x.start = y.start) :
    o = o' ∧ x = y := by
  by_cases ho : o = o'
  · subst ho
    refine ⟨rfl, ?_⟩
    cases hx with
    | @cell k S a hp hc =>
        cases hy with
        | @cell _ S' b hp' hc' =>
            obtain rfl := Option.some.inj (hp.symm.trans hp')
            obtain rfl : a = b := h
            rfl
    | @whole a n ha _ =>
        cases hy with
        | @whole b m hb _ =>
            obtain rfl : a = b := h
            obtain rfl := Option.some.inj (ha.symm.trans hb)
            rfl
  · have hpx := hx.positive
    have hpy := hy.positive
    rcases hx.apart_of_ne hy ho with ha | ha
    · omega
    · omega

theorem Extent.slab_of_some (h : A.Extent (some k) x) :
    ∃ S, A.slab k = some S ∧ S.Cell x.start ∧ x.size = S.size := by
  cases h with
  | cell hp hc => exact ⟨_, hp, hc, rfl⟩

theorem Extent.whole_of_none (h : A.Extent none x) :
    A.regions x.start = some x.size ∧ ∀ k S, A.slab k = some S → S.buf ≠ x.start := by
  cases h with
  | whole ha hn => exact ⟨ha, hn⟩

/-- Nothing starts where fresh memory starts. -/
theorem Extent.start_ne (h : A.Extent o x) (hf : A.regions.Fresh a n) (hn : 0 < n) :
    x.start ≠ a := by
  have hpos := h.positive
  have hout : ∀ b m, A.regions b = some m → x.Within ⟨b, m⟩ → x.start ≠ a := by
    intro b m hb hw he
    have hpm := A.ok.positive b m hb
    rcases hf b m hb with hs | hs
    · have h₁ := hw.1
      simp only at hs h₁
      omega
    · have h₂ := hw.2
      simp only at hs h₂
      omega
  cases h with
  | cell hp hc => exact hout _ _ (A.buffer _ _ hp) hc.within
  | whole ha _ => exact hout _ _ ha (.refl _)

/-! ### Headers at the starts of extents -/

theorem Extent.inside (h : A.Extent o x) : ∃ a n, A.regions a = some n ∧ x.Within ⟨a, n⟩ := by
  cases h with
  | cell hp hc => exact ⟨_, _, A.buffer _ _ hp, hc.within⟩
  | whole ha _ => exact ⟨_, _, ha, .refl _⟩

/-- Behind its header there is as much room as an extent has. -/
theorem Extent.room {Header : ℕ → Prop} {h p len : ℕ} (hx : A.Extent o ⟨p, len⟩)
    (hle : h + n ≤ len)
    (hh : ∀ q, Header q → ∃ o' len', h ≤ len' ∧ A.Extent o' ⟨q, len'⟩) :
    A.regions.Room Header h p n := by
  have hw : Span.Within ⟨p, h + n⟩ ⟨p, len⟩ := ⟨le_rfl, Nat.add_le_add_left hle p⟩
  constructor
  · obtain ⟨a, m, ha, hin⟩ := hx.inside
    exact ⟨a, m, ha, hin.1, hw.2.trans hin.2⟩
  · intro q hq hne
    obtain ⟨o', len', hlen, hy⟩ := hh q hq
    exact (hx.apart hy hne.symm).within hw ⟨le_rfl, Nat.add_le_add_left hlen q⟩

/-- There is no more if each cell has a header. -/
theorem Extent.room_le {Header : ℕ → Prop} {h p len : ℕ} (hx : A.Extent o ⟨p, len⟩)
    (hh : ∀ k S q, o = some k → A.slab k = some S → S.Cell q → Header q) (hpos : 0 < h)
    (hr : A.regions.Room Header h p n) : h + n ≤ len := by
  have hlen : 0 < len := hx.positive
  obtain ⟨⟨a, m, ha, hlow, hhigh⟩, hother⟩ := hr
  simp only at hlow hhigh
  cases hx with
  | @cell k S _ hS hc =>
      obtain ⟨i, hi, rfl⟩ := hc
      by_cases hlast : i + 1 < S.count
      · have hnext : S.buf + (i + 1) * S.size = S.buf + i * S.size + S.size := by
          rw [Nat.add_mul, Nat.one_mul, Nat.add_assoc]
        have hs := hother _ (hh k S _ rfl hS ⟨i + 1, hlast, rfl⟩) (by omega)
        rw [hnext] at hs
        rcases hs with hs | hs
        · simp only at hs
          omega
        · simp only at hs
          omega
      · obtain hcount : S.count = i + 1 := by omega
        have hbuf := A.buffer k S hS
        have hend : S.size * S.count = i * S.size + S.size := by
          rw [hcount, Nat.mul_add, Nat.mul_one, Nat.mul_comm]
        rw [hend] at hbuf
        obtain rfl := A.ok.unique hbuf ha (x := S.buf + i * S.size) (by omega) (by omega)
        obtain rfl := Option.some.inj (hbuf.symm.trans ha)
        omega
  | whole hp _ =>
      obtain rfl := A.ok.unique hp ha (x := p) (by omega) (by omega)
      obtain rfl := Option.some.inj (hp.symm.trans ha)
      omega

/-! ### What can be done to an arena -/

def empty : Arena where
  slab := fun _ => none
  regions := fun _ => none
  ok := Regions.ok_empty
  buffer := nofun
  distinct := nofun

/-- A new region that is not cut. -/
def malloc (A : Arena) (a n : ℕ) (hf : A.regions.Fresh a n) (hn : 0 < n) : Arena where
  slab := A.slab
  regions := Function.update A.regions a (some n)
  ok := A.ok.malloc hf hn
  buffer := by
    intro k S hp
    have hb := A.buffer k S hp
    rw [Function.update_of_ne (hf.ne A.ok hn hb).symm]
    exact hb
  distinct := A.distinct

/-- A new region that is cut. -/
def cut (A : Arena) (k : ℕ) (S : Slab) (hf : A.regions.Fresh S.buf (S.size * S.count))
    (hn : 0 < S.size * S.count) : Arena where
  slab := Function.update A.slab k (some S)
  regions := Function.update A.regions S.buf (some (S.size * S.count))
  ok := A.ok.malloc hf hn
  buffer := by
    intro j T hq
    rcases update_cases hq with ⟨-, hq⟩ | ⟨-, hq⟩
    · obtain rfl := Option.some.inj hq
      exact Function.update_self ..
    · have hb := A.buffer j T hq
      rw [Function.update_of_ne (hf.ne A.ok hn hb).symm]
      exact hb
  distinct := by
    have hnew : ∀ j T, A.slab j = some T → T.buf ≠ S.buf := fun j T hq =>
      (hf.ne A.ok hn (A.buffer j T hq)).symm
    intro i j T T' hi hj he
    rcases update_cases hi with ⟨rfl, hs⟩ | ⟨-, hi⟩
    · obtain rfl := Option.some.inj hs
      rcases update_cases hj with ⟨rfl, -⟩ | ⟨-, hj⟩
      · rfl
      · exact absurd he.symm (hnew j T' hj)
    · rcases update_cases hj with ⟨-, hj⟩ | ⟨-, hj⟩
      · obtain rfl := Option.some.inj hj
        exact absurd he (hnew i T hi)
      · exact A.distinct i j T T' hi hj he

/-- A region that is not cut is given back. -/
def free (A : Arena) (a : ℕ) (h : ∀ k S, A.slab k = some S → S.buf ≠ a) : Arena where
  slab := A.slab
  regions := Function.update A.regions a none
  ok := A.ok.free a
  buffer := by
    intro k S hp
    rw [Function.update_of_ne (h k S hp)]
    exact A.buffer k S hp
  distinct := A.distinct

variable {hf : A.regions.Fresh a n} {hn : 0 < n}

theorem malloc_new : (A.malloc a n hf hn).Extent none ⟨a, n⟩ := by
  apply Extent.whole
  · exact Function.update_self ..
  · intro k S hp
    exact (hf.ne A.ok hn (A.buffer k S hp)).symm

theorem Extent.malloc (h : A.Extent o x) : (A.malloc a n hf hn).Extent o x := by
  have hne := h.start_ne hf hn
  cases h with
  | cell hp hc => exact .cell hp hc
  | whole hb hw => exact .whole ((Function.update_of_ne hne ..).trans hb) hw

variable {hf : A.regions.Fresh S.buf (S.size * S.count)} {hn : 0 < S.size * S.count}

theorem cut_new (hc : S.Cell a) : (A.cut k S hf hn).Extent (some k) ⟨a, S.size⟩ :=
  .cell (Function.update_self ..) hc

theorem Extent.cut (h : A.Extent o x) (hk : A.slab k = none) : (A.cut k S hf hn).Extent o x := by
  have hne := h.start_ne hf hn
  cases h with
  | @cell j T b hq hc =>
      refine .cell (k := j) ?_ hc
      refine (Function.update_of_ne ?_ ..).trans hq
      rintro rfl
      rw [hk] at hq
      cases hq
  | whole hb hw =>
      refine .whole ((Function.update_of_ne hne ..).trans hb) ?_
      intro j T hq
      rcases update_cases hq with ⟨-, hq⟩ | ⟨-, hq⟩
      · obtain rfl := Option.some.inj hq
        exact hne.symm
      · exact hw j T hq

variable {hw : ∀ k S, A.slab k = some S → S.buf ≠ a}

theorem Extent.free (h : A.Extent o x) (hne : x.start ≠ a) : (A.free a hw).Extent o x := by
  cases h with
  | cell hp hc => exact .cell hp hc
  | whole hb hp => exact .whole ((Function.update_of_ne hne ..).trans hb) hp

end Arena

end CellNet.Library
