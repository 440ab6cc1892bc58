import CellNet.Library.Semaphore
import CellNet.Library.Update
import CellNet.Model.CellSemaphore

/-! `CellSemaphore` is a counting semaphore as long as its counters do not overflow. -/

namespace CellNet

open Library

/-! ### The calls without overflow -/

namespace CellSemaphore

variable {s : CellSemaphore}

theorem wait_eq (hl : -2147483648 < s.waitCount) (hu : s.waitCount ≤ 2147483647) :
    s.wait = if s.waitCount ≤ 0 then retest ⟨s.waitCount - 1, s.wakeupCount⟩
      else (⟨s.waitCount - 1, s.wakeupCount⟩, true) := by
  have hw : wrap32 (s.waitCount - 1) = s.waitCount - 1 := wrap32_eq (by omega) (by omega)
  have hc : s.waitCount - 1 < 0 ↔ s.waitCount ≤ 0 := by omega
  unfold wait
  simp only [hw, hc]

theorem wakeup_eq (hl : -2147483648 ≤ s.waitCount) (hu : s.waitCount < 2147483647)
    (h0 : 0 ≤ s.wakeupCount) (hw : s.waitCount < 0 → s.wakeupCount < 2147483647) :
    s.wakeup = if s.waitCount < 0 then ⟨s.waitCount + 1, s.wakeupCount + 1⟩
      else ⟨s.waitCount + 1, s.wakeupCount⟩ := by
  have hwait : wrap32 (s.waitCount + 1) = s.waitCount + 1 := wrap32_eq (by omega) (by omega)
  unfold wakeup
  simp only [hwait]
  by_cases hc : s.waitCount < 0
  · have := hw hc
    rw [if_pos (by omega), if_pos hc, wrap32_eq (by omega) (by omega)]
  · rw [if_neg (by omega), if_neg hc]

/-- What the predicate of `_cv.wait` finds. -/
theorem retest_cases (s : CellSemaphore) :
    0 < s.wakeupCount ∧ s.retest = (⟨s.waitCount, s.wakeupCount - 1⟩, true) ∨
      s.wakeupCount ≤ 0 ∧ s.retest = (s, false) := by
  unfold retest
  by_cases h : s.wakeupCount > 0
  · exact .inl ⟨h, if_pos h⟩
  · exact .inr ⟨not_lt.mp h, if_neg h⟩

end CellSemaphore

namespace SemRun

variable {s t : SemRun} {e : SemEvent} {i : ℕ}

/-! ### The relation between the counters -/

/-- `_wait` is the surplus of wakeups, and `_wakeup` counts the blocked threads that may go. -/
structure Ok (s : SemRun) : Prop where
  surplus : s.sem.waitCount = s.made - s.started
  nonneg : 0 ≤ s.sem.wakeupCount
  balance : (s.blocked : ℤ) - s.sem.wakeupCount = max 0 (-s.sem.waitCount)
  calls : s.returned + s.blocked = s.started
  low : -2147483648 ≤ s.sem.waitCount
  high : s.sem.waitCount ≤ 2147483647
  wakeups : s.sem.wakeupCount ≤ 2147483647

theorem new_ok (n : ℕ) : (new n).Ok := by
  have hb : (new n).blocked = 0 := by
    simp [blocked, new, List.count_replicate]
  constructor
  case balance =>
    rw [hb]
    rfl
  case calls =>
    rw [hb]
    rfl
  all_goals simp [new, CellSemaphore.new]

/-! ### One step -/

/-- A thread that stays where it is, and one that goes in or out. -/
theorem blocked_set {pc : SemPc} (hi : s.threads[i]? = some pc) (pc' : SemPc) :
    (s.threads.set i pc').count .blocked + (if pc = .blocked then 1 else 0) =
      s.blocked + if pc' = .blocked then 1 else 0 := by
  obtain ⟨hlt, rfl⟩ := List.getElem?_eq_some_iff.mp hi
  have hpos : s.threads[i] = .blocked → 0 < s.blocked := by
    intro hb
    apply List.count_pos_iff.mpr
    rw [← hb]
    exact List.getElem_mem hlt
  rw [List.count_set hlt]
  unfold blocked at hpos ⊢
  simp only [beq_iff_eq]
  split
  · next hb =>
      have := hpos hb
      omega
  · omega

/-- A call of `wait` passes on the surplus, takes a wakeup that is meant for a blocked thread, or
blocks. -/
theorem Ok.wait_cases (h : s.Ok) (hr : s.InRange (.wait i)) :
    s.sem.wait =
      if 0 < s.sem.waitCount then (⟨s.sem.waitCount - 1, s.sem.wakeupCount⟩, true)
      else if 0 < s.sem.wakeupCount then (⟨s.sem.waitCount - 1, s.sem.wakeupCount - 1⟩, true)
      else (⟨s.sem.waitCount - 1, s.sem.wakeupCount⟩, false) := by
  rw [CellSemaphore.wait_eq hr h.high]
  by_cases hc : 0 < s.sem.waitCount
  · rw [if_pos hc, if_neg (by omega)]
  · rw [if_neg hc, if_pos (by omega)]
    rcases CellSemaphore.retest_cases ⟨s.sem.waitCount - 1, s.sem.wakeupCount⟩ with
      ⟨hw, he⟩ | ⟨hw, he⟩
    · rw [he, if_pos hw]
    · rw [he, if_neg (not_lt.mpr hw)]

theorem next_wait (hn : s.next (.wait i) = some t) : s.threads[i]? = some .idle ∧
    t = leave { s with started := s.started + 1 } i s.sem.wait := by
  obtain ⟨hi, ht⟩ := Option.ite_none_right_eq_some.mp hn
  exact ⟨hi, (Option.some.inj ht).symm⟩

theorem next_retest (hn : s.next (.retest i) = some t) : s.threads[i]? = some .blocked ∧
    t = s.leave i s.sem.retest := by
  obtain ⟨hi, ht⟩ := Option.ite_none_right_eq_some.mp hn
  exact ⟨hi, (Option.some.inj ht).symm⟩

theorem next_wakeup (hn : s.next (.wakeup i) = some t) : s.threads[i]? = some .idle ∧
    t = { s with sem := s.sem.wakeup, made := s.made + 1 } := by
  obtain ⟨hi, ht⟩ := Option.ite_none_right_eq_some.mp hn
  exact ⟨hi, (Option.some.inj ht).symm⟩

theorem Ok.wait (h : s.Ok) (hr : s.InRange (.wait i)) (hn : s.next (.wait i) = some t) : t.Ok := by
  obtain ⟨hi, rfl⟩ := next_wait hn
  have hlow : -2147483648 < s.sem.waitCount := hr
  have hcall := h.wait_cases hr
  obtain ⟨hs, h0, hb, hc, hl, hh, hw⟩ := h
  have hidle := blocked_set hi .idle
  have hblock := blocked_set hi .blocked
  simp only [reduceCtorEq, if_false, if_true, Nat.add_zero] at hidle hblock
  unfold leave
  rw [hcall]
  split
  · constructor
    all_goals simp only [blocked, if_true] at *
    all_goals omega
  · split
    · constructor
      all_goals simp only [blocked, if_true] at *
      all_goals omega
    · constructor
      all_goals simp only [blocked, Bool.false_eq_true, if_false] at *
      all_goals omega

theorem Ok.retest (h : s.Ok) (hn : s.next (.retest i) = some t) : t.Ok := by
  obtain ⟨hi, rfl⟩ := next_retest hn
  obtain ⟨hs, h0, hb, hc, hl, hh, hw⟩ := h
  have hidle := blocked_set hi .idle
  have hblock := blocked_set hi .blocked
  simp only [reduceCtorEq, if_false, if_true, Nat.add_zero] at hidle hblock
  unfold leave
  rcases s.sem.retest_cases with ⟨hpos, he⟩ | ⟨hpos, he⟩
  · rw [he]
    constructor
    all_goals simp only [blocked, if_true] at *
    all_goals omega
  · rw [he]
    constructor
    all_goals simp only [blocked, Bool.false_eq_true, if_false] at *
    all_goals omega

theorem Ok.wakeup (h : s.Ok) (hr : s.InRange (.wakeup i)) (hn : s.next (.wakeup i) = some t) :
    t.Ok := by
  obtain ⟨hi, rfl⟩ := next_wakeup hn
  rw [CellSemaphore.wakeup_eq h.low hr.1 h.nonneg hr.2]
  have hup := hr.1
  have hmax := hr.2
  obtain ⟨hs, h0, hb, hc, hl, hh, hw⟩ := h
  split
  · constructor
    all_goals simp only [blocked] at *
    all_goals omega
  · constructor
    all_goals simp only [blocked] at *
    all_goals omega

theorem Ok.step (h : s.Ok) (hr : s.InRange e) (hn : s.next e = some t) : t.Ok := by
  cases e with
  | wait i => exact h.wait hr hn
  | retest i => exact h.retest hn
  | wakeup i => exact h.wakeup hr hn

theorem ok_of_reachable (h : (system.guard InRange).Reachable s) : s.Ok := by
  refine System.Invariant.reachable (P := Ok) ⟨?_, ?_⟩ h
  · intro s hs
    obtain ⟨n, rfl⟩ := hs
    exact new_ok n
  · intro s e t hs he
    exact hs.step he.1 he.2

/-! ### The semaphore as such -/

theorem next_counts (hn : s.next e = some t) :
    t.made = s.made + 1 ∧ t.returned = s.returned ∨
      t.made = s.made ∧ (t.returned = s.returned + 1 ∨ t.returned = s.returned) := by
  cases e with
  | wait i =>
      obtain ⟨-, rfl⟩ := next_wait hn
      unfold leave
      split
      · exact .inr ⟨rfl, .inl rfl⟩
      · exact .inr ⟨rfl, .inr rfl⟩
  | retest i =>
      obtain ⟨-, rfl⟩ := next_retest hn
      unfold leave
      split
      · exact .inr ⟨rfl, .inl rfl⟩
      · exact .inr ⟨rfl, .inr rfl⟩
  | wakeup i =>
      obtain ⟨-, rfl⟩ := next_wakeup hn
      exact .inl ⟨rfl, rfl⟩

/-- A wakeup gives a permit, and a call of `wait` takes one when it returns. -/
theorem counting : System.Simulation (system.guard InRange) Permits.system
    fun s p => s.Ok ∧ p.given = s.made ∧ p.taken = s.returned := by
  constructor
  case init =>
    intro s hs
    obtain ⟨n, rfl⟩ := hs
    exact ⟨.none, rfl, new_ok n, rfl, rfl⟩
  case step =>
    intro s e t p hp hs
    obtain ⟨hok, hgiven, htaken⟩ := hp
    have ht := hok.step hs.1 hs.2
    rcases next_counts hs.2 with ⟨hm, hr⟩ | ⟨hm, hr | hr⟩
    · refine ⟨[.give], p.give, .single (.give p), ht, ?_, ?_⟩
      · rw [hm, ← hgiven]
        rfl
      · rw [hr, ← htaken]
        rfl
    · have hvalue : 0 < p.value := by
        have hb := p.balance
        obtain ⟨hsur, h0, hbal, hcalls, -, -, -⟩ := ht
        omega
      refine ⟨[.take], p.take hvalue, .single (.take p hvalue), ht, ?_, ?_⟩
      · rw [hm, ← hgiven]
        rfl
      · rw [hr, ← htaken]
        rfl
    · exact ⟨[], p, .nil p, ht, hgiven.trans hm.symm, htaken.trans hr.symm⟩

/-! ### No wakeup is lost -/

/-- As soon as there is a wakeup for each wait, every blocked thread finds its predicate true. -/
theorem Ok.passes (h : s.Ok) (hle : s.started ≤ s.made) (hi : s.threads[i]? = some .blocked) :
    ∃ t, s.next (.retest i) = some t ∧ t.threads[i]? = some .idle ∧ t.blocked + 1 = s.blocked ∧
      t.started = s.started ∧ t.made = s.made := by
  have hset := blocked_set hi .idle
  have hbal := h.balance
  have hsur := h.surplus
  simp only [reduceCtorEq, if_false, if_true, Nat.add_zero] at hset
  refine ⟨_, if_pos hi, ?_, ?_, rfl, rfl⟩
  all_goals rcases s.sem.retest_cases with ⟨hpos, he⟩ | ⟨hpos, he⟩
  · rw [he]
    exact getElem?_set_same hi _
  · omega
  · rw [he]
    exact hset
  · omega

/-- A run of returns from `_cv.wait`. -/
def Retests (ls : List SemEvent) : Prop :=
  ∀ e ∈ ls, ∃ i, e = .retest i

theorem Ok.drains (h : s.Ok) (hle : s.started ≤ s.made) :
    ∃ ls t, Retests ls ∧ system.Path s ls t ∧ t.blocked = 0 ∧ t.returned = s.started := by
  generalize hb : s.blocked = b
  induction b generalizing s with
  | zero =>
      have hcalls := h.calls
      exact ⟨[], s, nofun, .nil s, hb, by omega⟩
  | succ b ih =>
      have hmem : SemPc.blocked ∈ s.threads := by
        apply List.count_pos_iff.mp
        unfold blocked at hb
        omega
      obtain ⟨i, hi⟩ := List.mem_iff_getElem?.mp hmem
      obtain ⟨t, ht, -, hbt, hstarted, hmade⟩ := h.passes hle hi
      obtain ⟨ls, u, hls, hp, hu, hret⟩ := ih (h.retest ht) (by omega) (by omega)
      refine ⟨.retest i :: ls, u, ?_, .cons ht hp, hu, hret.trans hstarted⟩
      exact List.forall_mem_cons.mpr ⟨⟨i, rfl⟩, hls⟩

/-- What the counters and the threads have to do with each other. -/
structure Counts (s : SemRun) : Prop where
  returned : s.returned ≤ s.made
  nonneg : 0 ≤ s.sem.wakeupCount
  balance : (s.blocked : ℤ) - s.sem.wakeupCount = max 0 ((s.started : ℤ) - s.made)
  passes : s.started ≤ s.made → ∀ i, s.threads[i]? = some .blocked →
    ∃ t, s.next (.retest i) = some t ∧ t.threads[i]? = some .idle
  drains : s.started ≤ s.made →
    ∃ ls t, Retests ls ∧ system.Path s ls t ∧ t.blocked = 0 ∧ t.returned = s.started

theorem counts_of_reachable (h : (system.guard InRange).Reachable s) : s.Counts := by
  obtain ⟨p, -, hok, hgiven, htaken⟩ := counting.reachable h
  constructor
  case returned =>
    rw [← hgiven, ← htaken]
    exact p.taken_le_given
  case nonneg => exact hok.nonneg
  case balance =>
    rw [hok.balance, hok.surplus]
    congr 1
    omega
  case passes =>
    intro hle i hi
    obtain ⟨t, ht, hpc, -⟩ := hok.passes hle hi
    exact ⟨t, ht, hpc⟩
  case drains => exact hok.drains

/-! ### Where a counter overflows -/

theorem Ok.overflow_wait (h : s.Ok) (hn : s.next (.wait i) = some t)
    (hr : ¬ s.InRange (.wait i)) : ¬ t.Counts := by
  obtain ⟨hi, rfl⟩ := next_wait hn
  have hlow : s.sem.waitCount = -2147483648 := le_antisymm (not_lt.mp hr) h.low
  have hpass : s.sem.wait = (⟨2147483647, s.sem.wakeupCount⟩, true) := by
    unfold CellSemaphore.wait
    rw [hlow]
    rfl
  have hidle := blocked_set hi .idle
  simp only [reduceCtorEq, if_false, Nat.add_zero] at hidle
  have hbal := h.balance
  have hsur := h.surplus
  intro hc
  have hbal' := hc.balance
  unfold leave at hbal'
  simp only [blocked, hpass, if_true] at hbal' hidle hbal
  omega

theorem Ok.overflow_wakeup (h : s.Ok) (hn : s.next (.wakeup i) = some t)
    (hr : ¬ s.InRange (.wakeup i)) : ¬ t.Counts := by
  obtain ⟨-, rfl⟩ := next_wakeup hn
  obtain ⟨hsur, h0, hbal, -, hl, hh, hw⟩ := h
  intro hc
  have hbal' := hc.balance
  have h0' := hc.nonneg
  by_cases hup : s.sem.waitCount < 2147483647
  · -- The count of wakeups turns negative.
    have hneg : s.sem.waitCount < 0 ∧ s.sem.wakeupCount = 2147483647 := by
      by_contra hno
      apply hr
      refine ⟨hup, fun hneg => ?_⟩
      omega
    have hwake : s.sem.wakeup.wakeupCount = -2147483648 := by
      have hwait : wrap32 (s.sem.waitCount + 1) ≤ 0 := by
        rw [wrap32_eq (by omega) (by omega)]
        omega
      unfold CellSemaphore.wakeup
      dsimp only
      rw [if_pos hwait, hneg.2]
      rfl
    dsimp only at h0'
    omega
  · -- A surplus turns into a shortage, so a wakeup is counted that no thread waits for.
    have hmax : s.sem.waitCount = 2147483647 := by omega
    have hwake : s.sem.wakeup.wakeupCount = wrap32 (s.sem.wakeupCount + 1) := by
      unfold CellSemaphore.wakeup
      rw [hmax]
      rfl
    dsimp only [blocked] at hbal' hbal
    rw [hwake] at hbal'
    unfold wrap32 at hbal'
    omega

/-- In every run in which no counter overflows the semaphore counts right, and a step from there
keeps it right if and only if no counter overflows in it. -/
theorem counts_while : ∀ s, (system.guard InRange).Reachable s → s.Counts ∧
    ∀ e t, system.step s e t → (t.Counts ↔ s.InRange e) := by
  intro s hs
  refine ⟨counts_of_reachable hs, ?_⟩
  intro e t hn
  constructor
  · intro hc
    by_contra hr
    cases e with
    | wait i => exact (ok_of_reachable hs).overflow_wait hn hr hc
    | retest i => exact hr trivial
    | wakeup i => exact (ok_of_reachable hs).overflow_wakeup hn hr hc
  · intro hr
    exact counts_of_reachable (hs.step ⟨hr, hn⟩)

/-- The first of three threads blocks, the second gives a wakeup, and the third one takes it. -/
theorem counts_overtaken : ∃ s, (system.guard InRange).Reachable s ∧ s.blocked = 1 ∧
    s.returned = 1 ∧ s.made = 1 ∧ s.Counts := by
  have hwait : ∀ k : ℤ, k = 0 → -2147483648 < k := by
    intro k hk
    omega
  have h₁ : (new 3).next (.wait 0) = some ⟨⟨-1, 0⟩, [.blocked, .idle, .idle], 1, 0, 0⟩ := rfl
  have h₂ : next ⟨⟨-1, 0⟩, [.blocked, .idle, .idle], 1, 0, 0⟩ (.wakeup 1) =
      some ⟨⟨0, 1⟩, [.blocked, .idle, .idle], 1, 0, 1⟩ := rfl
  have h₃ : next ⟨⟨0, 1⟩, [.blocked, .idle, .idle], 1, 0, 1⟩ (.wait 2) =
      some ⟨⟨-1, 0⟩, [.blocked, .idle, .idle], 2, 1, 1⟩ := rfl
  have hp : (system.guard InRange).Path (new 3) [.wait 0, .wakeup 1, .wait 2] _ :=
    .cons ⟨hwait _ rfl, h₁⟩ (.cons ⟨⟨by decide, by decide⟩, h₂⟩ (.single ⟨hwait _ rfl, h₃⟩))
  have h₀ : (system.guard InRange).Reachable (new 3) := .init ⟨3, rfl⟩
  have hs := h₀.path hp
  exact ⟨_, hs, rfl, rfl, rfl, (counts_while _ hs).1⟩

/-- After `n` wakeups that nobody waited for. -/
def surplus (n : ℕ) : SemRun := ⟨⟨n, 0⟩, [.idle], 0, 0, n⟩

theorem surplus_path {n : ℕ} (hn : n ≤ 2147483647) :
    system.Path (new 1) (List.replicate n (.wakeup 0)) (surplus n) := by
  induction n with
  | zero => exact .nil _
  | succ n ih =>
      have hwrap : wrap32 ((n : ℤ) + 1) = n + 1 := wrap32_eq (by omega) (by omega)
      have hpos : ¬ (n : ℤ) + 1 ≤ 0 := by omega
      have hnext : (surplus n).next (.wakeup 0) = some (surplus (n + 1)) := by
        simp [next, surplus, CellSemaphore.wakeup, hwrap, hpos]
      rw [List.replicate_succ']
      exact (ih (by omega)).append (.single hnext)

/-- The 2^31st wakeup in a row counts a blocked thread, although there is none. -/
theorem wakeups_overflow : ∃ s, system.Reachable s ∧ s.made = 2147483648 ∧ s.started = 0 ∧
    s.blocked = 0 ∧ s.sem.wakeupCount = 1 ∧
    (s.blocked : ℤ) - s.sem.wakeupCount ≠ max 0 ((s.started : ℤ) - s.made) := by
  have h₀ : system.Reachable (new 1) := .init ⟨1, rfl⟩
  have hfull := h₀.path (surplus_path (n := 2147483647) le_rfl)
  exact ⟨_, hfull.step (l := .wakeup 0) rfl, rfl, rfl, rfl, rfl, by decide⟩

end SemRun

end CellNet
