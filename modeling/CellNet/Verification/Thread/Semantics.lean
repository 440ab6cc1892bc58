import CellNet.Library.Update
import CellNet.Model.CellThread
import CellNet.Verification.Semaphore.Counting

/-! What one step of a thread can do, and the count of its semaphore in every run. -/

namespace CellNet

open Library

variable {ρ κ : Type*}

namespace CellThread

variable {onRun : RunCallback ρ κ} {t t' : CellThread ρ}

theorem exit_eq (t : CellThread ρ) : t.exit = { t with isRun := false } := by
  obtain ⟨isRun, sem, owner, workers⟩ := t
  cases isRun <;> rfl

/-- What a worker can do: its next place, and `_isRun` and `_sem` after it. -/
inductive Works (onRun : RunCallback ρ κ) (t : CellThread ρ) :
    WorkerPc ρ → κ → WorkerPc ρ → Bool → CellSemaphore → Prop where
  | create {k} : Works onRun t .created k (.running onRun.enter) t.isRun t.sem
  | goto {r r' k} : onRun.step t.isRun r k = .goto r' →
      Works onRun t (.running r) k (.running r') t.isRun t.sem
  | callExit {r r' k} : onRun.step t.isRun r k = .exit r' →
      Works onRun t (.running r) k (.exiting r') t.isRun t.sem
  | ret {r k} : onRun.step t.isRun r k = .ret →
      Works onRun t (.running r) k .destroying t.isRun t.sem
  | exit {r k} : t.owner = .idle → Works onRun t (.exiting r) k (.running r) false t.sem
  | destroy {k} : Works onRun t .destroying k .waking t.isRun t.sem
  | wake {k} : t.sem.waitCount < 2147483647 →
      Works onRun t .waking k .clearing t.isRun t.sem.wakeup
  | clear {k} : Works onRun t .clearing k .ended false t.sem

theorem onWork_eq_some_iff {pc pc' : WorkerPc ρ} {k : κ} {b : Bool} {sem : CellSemaphore} :
    onWork onRun t pc k = some (pc', b, sem) ↔ Works onRun t pc k pc' b sem := by
  constructor
  · intro h
    cases pc with
    | created | destroying | clearing => cases h; constructor
    | waking =>
        obtain ⟨hlt, h⟩ := Option.ite_none_right_eq_some.mp h
        cases h
        exact .wake hlt
    | ended => cases h
    | running r =>
        rw [onWork] at h
        split at h
        · next hs => cases h; exact .goto hs
        · next hs => cases h; exact .callExit hs
        · next hs => cases h; exact .ret hs
    | exiting r =>
        rw [onWork] at h
        split at h
        · next ho =>
            rw [exit_eq] at h
            cases h
            exact .exit ho
        · cases h
  · intro h
    cases h with
    | create | destroy | clear => rfl
    | wake hlt => exact if_pos hlt
    | goto hs | callExit hs | ret hs => rw [onWork, hs]
    | exit ho => rw [onWork, if_pos ho, exit_eq]

theorem Works.next {i : ℕ} {pc pc' : WorkerPc ρ} {k : κ} {b : Bool} {sem : CellSemaphore}
    (h : Works onRun t pc k pc' b sem) (hpc : t.workers[i]? = some pc) :
    t.next onRun (.work i k) =
      some { t with isRun := b, sem := sem, workers := t.workers.set i pc' } := by
  simp only [CellThread.next, hpc, onWork_eq_some_iff.mpr h, Option.bind_eq_bind,
    Option.bind_some]

/-- A step of a worker moves that worker alone; it may change `_isRun` and `_sem`. -/
theorem work_cases {i : ℕ} {k : κ} (h : t.next onRun (.work i k) = some t') :
    ∃ pc pc' b sem, t.workers[i]? = some pc ∧ Works onRun t pc k pc' b sem ∧
      t' = { t with isRun := b, sem := sem, workers := t.workers.set i pc' } := by
  simp only [CellThread.next, Option.bind_eq_bind, Option.bind_eq_some_iff,
    Option.some.injEq] at h
  obtain ⟨pc, hpc, ⟨pc', b, sem⟩, hr, rfl⟩ := h
  exact ⟨pc, pc', b, sem, hpc, onWork_eq_some_iff.mp hr, rfl⟩

/-- Everything a step of the system can do, with what enables it. -/
inductive Steps (onRun : RunCallback ρ κ) (t : CellThread ρ) :
    ThreadEvent κ → CellThread ρ → Prop where
  | start : t.owner = .idle → t.isRun = false →
      Steps onRun t .start { t with isRun := true, workers := t.workers ++ [.created] }
  | startAgain : t.owner = .idle → t.isRun = true → Steps onRun t .start t
  | close : t.owner = .idle → t.isRun = true →
      Steps onRun t .close { t with isRun := false, owner := .closing }
  | closeAgain : t.owner = .idle → t.isRun = false → Steps onRun t .close t
  | exit : t.owner = .idle → Steps onRun t .exit { t with isRun := false }
  | waitReturn : t.owner = .closing → t.sem.wait.2 = true →
      Steps onRun t .semWait { t with sem := t.sem.wait.1, owner := .idle }
  | waitBlock : t.owner = .closing → t.sem.wait.2 = false →
      Steps onRun t .semWait { t with sem := t.sem.wait.1, owner := .blocked }
  | retestReturn : t.owner = .blocked → t.sem.retest.2 = true →
      Steps onRun t .semRetest { t with sem := t.sem.retest.1, owner := .idle }
  | retestBlock : t.owner = .blocked → t.sem.retest.2 = false →
      Steps onRun t .semRetest { t with sem := t.sem.retest.1, owner := .blocked }
  | work {i pc k pc' b sem} : t.workers[i]? = some pc → Works onRun t pc k pc' b sem →
      Steps onRun t (.work i k)
        { t with isRun := b, sem := sem, workers := t.workers.set i pc' }

theorem next_eq_some_iff {e : ThreadEvent κ} : t.next onRun e = some t' ↔ Steps onRun t e t' := by
  constructor
  · intro h
    cases e with
    | start =>
        simp only [next, Option.ite_none_right_eq_some, Option.some.injEq] at h
        obtain ⟨ho, rfl⟩ := h
        cases hr : t.isRun with
        | false => rw [CellThread.start, hr]; exact .start ho hr
        | true => rw [CellThread.start, hr]; exact .startAgain ho hr
    | close =>
        simp only [next, Option.ite_none_right_eq_some, Option.some.injEq] at h
        obtain ⟨ho, rfl⟩ := h
        cases hr : t.isRun with
        | false => rw [CellThread.close, hr]; exact .closeAgain ho hr
        | true => rw [CellThread.close, hr]; exact .close ho hr
    | exit =>
        simp only [next, Option.ite_none_right_eq_some, Option.some.injEq] at h
        obtain ⟨ho, rfl⟩ := h
        exact exit_eq t ▸ .exit ho
    | semWait =>
        simp only [next, Option.ite_none_right_eq_some, Option.some.injEq] at h
        obtain ⟨ho, rfl⟩ := h
        cases hr : t.sem.wait.2 with
        | false => exact .waitBlock ho hr
        | true => exact .waitReturn ho hr
    | semRetest =>
        simp only [next, Option.ite_none_right_eq_some, Option.some.injEq] at h
        obtain ⟨ho, rfl⟩ := h
        cases hr : t.sem.retest.2 with
        | false => exact .retestBlock ho hr
        | true => exact .retestReturn ho hr
    | work i k =>
        obtain ⟨pc, pc', b, sem, hpc, hw, rfl⟩ := work_cases h
        exact .work hpc hw
  · intro h
    cases h with
    | start ho hr | startAgain ho hr => simp [next, CellThread.start, ho, hr]
    | close ho hr | closeAgain ho hr => simp [next, CellThread.close, ho, hr]
    | exit ho => rw [next, if_pos ho, exit_eq]
    | waitReturn ho hr | waitBlock ho hr | retestReturn ho hr | retestBlock ho hr =>
        simp [next, ho, hr]
    | work hpc hw => exact hw.next hpc

/-- With a single owner the counters only depend on where the owner is. -/
structure SemOk (t : CellThread ρ) : Prop where
  bound : t.sem.waitCount ≤ 2147483647
  free : t.owner ≠ .blocked → t.sem.wakeupCount = 0 ∧ 0 ≤ t.sem.waitCount
  held : t.owner = .blocked →
    t.sem.waitCount = -1 ∧ t.sem.wakeupCount = 0 ∨
      0 ≤ t.sem.waitCount ∧ t.sem.wakeupCount = 1

theorem semOk_new : (new : CellThread ρ).SemOk := by
  refine ⟨by simp [new, CellSemaphore.new], fun _ => ?_, fun h => ?_⟩
  · simp [new, CellSemaphore.new]
  · simp [new] at h

/-- `wait` returns at once exactly when a count is left. -/
theorem semWait_eq (h : t.SemOk) (ho : t.owner = .closing) :
    t.sem.wait =
      ({ t.sem with waitCount := t.sem.waitCount - 1 }, decide (0 < t.sem.waitCount)) := by
  obtain ⟨hw, hn⟩ := h.free (by simp [ho])
  rw [CellSemaphore.wait_eq (by omega) h.bound]
  by_cases hc : t.sem.waitCount ≤ 0
  · simp [CellSemaphore.retest, hc, hw, not_lt.mpr hc]
  · simp [hc, not_le.mp hc]

theorem semRetest_eq (t : CellThread ρ) (hw : t.sem.wakeupCount = 1) :
    t.sem.retest = ({ t.sem with wakeupCount := 0 }, true) := by
  simp [CellSemaphore.retest, hw]

/-- `wakeup` lets a blocked owner go that has not been let go yet. -/
theorem semWakeup_eq (h : t.SemOk) (hlt : t.sem.waitCount < 2147483647) :
    t.sem.wakeup = if t.sem.waitCount < 0 then ⟨t.sem.waitCount + 1, t.sem.wakeupCount + 1⟩
      else ⟨t.sem.waitCount + 1, t.sem.wakeupCount⟩ := by
  by_cases ho : t.owner = .blocked
  · rcases h.held ho with ⟨hn, hw⟩ | ⟨hn, hw⟩
    · exact CellSemaphore.wakeup_eq (by omega) hlt (by omega) (by omega)
    · exact CellSemaphore.wakeup_eq (by omega) hlt (by omega) (by omega)
  · obtain ⟨hw, hn⟩ := h.free ho
    exact CellSemaphore.wakeup_eq (by omega) hlt (by omega) (by omega)

theorem SemOk.wakeup (h : t.SemOk) (hlt : t.sem.waitCount < 2147483647) (b : Bool)
    (ws : List (WorkerPc ρ)) :
    ({ t with isRun := b, sem := t.sem.wakeup, workers := ws } : CellThread ρ).SemOk := by
  have heq := semWakeup_eq h hlt
  have hcount : t.sem.wakeup.waitCount = t.sem.waitCount + 1 := by
    rw [heq]
    split <;> rfl
  refine ⟨by dsimp only; omega, fun ho => ?_, fun ho => ?_⟩
  · obtain ⟨hw, hn⟩ := h.free ho
    rw [if_neg (by omega)] at heq
    exact ⟨by dsimp only; rw [heq]; exact hw, by dsimp only; omega⟩
  · right
    rcases h.held ho with ⟨hn, hw⟩ | ⟨hn, hw⟩
    · rw [if_pos (by omega)] at heq
      exact ⟨by dsimp only; omega, by dsimp only; rw [heq, hw]; rfl⟩
    · rw [if_neg (by omega)] at heq
      exact ⟨by dsimp only; omega, by dsimp only; rw [heq]; exact hw⟩

/-- The counters keep their shape in every step. -/
theorem SemOk.step (h : t.SemOk) {e : ThreadEvent κ} (hs : Steps onRun t e t') : t'.SemOk := by
  cases hs with
  | start ho _ | startAgain ho _ | closeAgain ho _ | exit ho | close ho _ =>
      have hf := h.free (by simp [ho])
      exact ⟨h.bound, fun _ => hf, fun hb => by simp [ho] at hb⟩
  | waitReturn ho hr =>
      obtain ⟨hw, hc⟩ := h.free (by simp [ho])
      rw [semWait_eq h ho] at hr ⊢
      have hpos : 0 < t.sem.waitCount := of_decide_eq_true hr
      have hb := h.bound
      exact ⟨by simp only; omega, fun _ => ⟨hw, by simp only; omega⟩, fun hb => by simp at hb⟩
  | waitBlock ho hr =>
      obtain ⟨hw, hc⟩ := h.free (by simp [ho])
      rw [semWait_eq h ho] at hr ⊢
      have hz : ¬ 0 < t.sem.waitCount := of_decide_eq_false hr
      exact ⟨by simp only; omega, fun hb => absurd rfl hb,
        fun _ => .inl ⟨by simp only; omega, hw⟩⟩
  | retestReturn ho hr =>
      rcases h.held ho with ⟨_, hw⟩ | ⟨hc, hw⟩
      · simp [CellSemaphore.retest, hw] at hr
      · rw [semRetest_eq t hw]
        exact ⟨h.bound, fun _ => ⟨rfl, hc⟩, fun hb => by simp at hb⟩
  | retestBlock ho hr =>
      rcases h.held ho with ⟨hc, hw⟩ | ⟨_, hw⟩
      · have hr' : t.sem.retest.1 = t.sem := by simp [CellSemaphore.retest, hw]
        rw [hr']
        exact ⟨h.bound, fun hb => absurd rfl hb, fun _ => .inl ⟨hc, hw⟩⟩
      · rw [semRetest_eq t hw] at hr
        cases hr
  | work hpc hw =>
      cases hw with
      | wake hlt => exact h.wakeup hlt _ _
      | create | goto | callExit | ret | exit | destroy | clear =>
          exact ⟨h.bound, h.free, h.held⟩

end CellThread

end CellNet
