import CellNet.Model.ServerLoop
import CellNet.Verification.Thread.Semantics

/-! `Close` waits for the worker while it holds the lock that `Exit` needs. -/

namespace CellNet.CellThread

open Library CellServer

variable {ρ κ : Type*} {onRun : RunCallback ρ κ} {t t' : CellThread ρ}

/-- Some worker waits for `_mutex` in `Exit`. -/
def AnyExiting (t : CellThread ρ) : Prop :=
  ∃ (i : ℕ) (r : ρ), t.workers[i]? = some (.exiting r)

/-- The owner waits for a signal and holds `_mutex`; a worker waits for `_mutex`. -/
def Deadlocked (t : CellThread ρ) : Prop :=
  t.owner = .blocked ∧ t.AnyExiting

def CallsExit (onRun : RunCallback ρ κ) (t : CellThread ρ) (i : ℕ) (k : κ) : Prop :=
  ∃ r r', t.workers[i]? = some (.running r) ∧ onRun.step t.isRun r k = .exit r'

/-- `Close` takes `_mutex` while no worker is in `Exit`, and no worker calls `Exit` while
`Close` is waiting; a count left over makes both harmless. -/
def ExitsApart (onRun : RunCallback ρ κ) (t : CellThread ρ) : ThreadEvent κ → Prop
  | .close => t.isRun = true → t.AnyExiting → 0 < t.sem.waitCount
  | .work i k => CallsExit onRun t i k →
      t.owner ≠ .blocked ∧ (t.owner = .closing → 0 < t.sem.waitCount)
  | _ => True

structure DeadlockInv (t : CellThread ρ) : Prop where
  sem : t.SemOk
  closing : t.owner = .closing → t.AnyExiting → 0 < t.sem.waitCount
  blocked : t.owner = .blocked → ¬ t.AnyExiting

/-- Only a worker that calls `Exit` comes to wait for the lock. -/
theorem AnyExiting.of_work {i : ℕ} {k : κ} {pc pc' : WorkerPc ρ} {b : Bool}
    {sem : CellSemaphore} (hpc : t.workers[i]? = some pc) (hw : Works onRun t pc k pc' b sem)
    (h : AnyExiting { t with isRun := b, sem := sem, workers := t.workers.set i pc' }) :
    t.AnyExiting ∨ CallsExit onRun t i k := by
  obtain ⟨j, r, hj⟩ := h
  rcases getElem?_set_cases hj with ⟨rfl, rfl⟩ | ⟨-, hj⟩
  · cases hw with
    | callExit hs => exact .inr ⟨_, _, hpc, hs⟩
  · exact .inl ⟨j, r, hj⟩

theorem DeadlockInv.step (h : t.DeadlockInv) {e : ThreadEvent κ} (ho : ExitsApart onRun t e)
    (hs : Steps onRun t e t') : t'.DeadlockInv := by
  refine ⟨h.sem.step hs, fun hc hx => ?_, fun hb hx => ?_⟩
  · cases hs with
    | start hi | startAgain hi | closeAgain hi | exit hi => simp [hi] at hc
    | close hi hr => exact ho hr hx
    | waitReturn | waitBlock | retestReturn | retestBlock => simp at hc
    | work hpc hw =>
        have hpos : 0 < t.sem.waitCount := by
          rcases hx.of_work hpc hw with hx | hx
          · exact h.closing hc hx
          · exact (ho hx).2 hc
        cases hw with
        | wake hlt =>
            show 0 < t.sem.wakeup.waitCount
            rw [semWakeup_eq h.sem hlt, if_neg (by omega)]
            show 0 < t.sem.waitCount + 1
            omega
        | create | goto | callExit | ret | exit | destroy | clear => exact hpos
  · cases hs with
    | start hi | startAgain hi | closeAgain hi | exit hi => simp [hi] at hb
    | close | waitReturn | retestReturn => simp at hb
    | waitBlock hi hr =>
        have hpos := h.closing hi hx
        rw [semWait_eq h.sem hi] at hr
        exact of_decide_eq_false hr hpos
    | retestBlock hi => exact h.blocked hi hx
    | work hpc hw =>
        rcases hx.of_work hpc hw with hx | hx
        · exact h.blocked hb hx
        · exact (ho hx).1 hb

theorem deadlockInv_reachable
    (h : ((system onRun).guard (ExitsApart onRun)).Reachable t) : t.DeadlockInv := by
  have hinv : ((system onRun).guard (ExitsApart onRun)).Invariant DeadlockInv := by
    refine ⟨?_, fun s e t hi hst => hi.step hst.1 (next_eq_some_iff.mp hst.2)⟩
    rintro _ rfl
    exact ⟨semOk_new, fun h => by simp [new] at h, fun h => by simp [new] at h⟩
  exact hinv.reachable h

/-- A `Close` or a call of `Exit` at the wrong moment leads into the deadlock. -/
theorem DeadlockInv.deadlocks (h : t.DeadlockInv) {e : ThreadEvent κ}
    (hs : Steps onRun t e t') (ho : ¬ ExitsApart onRun t e) :
    ∃ es u, (system onRun).Path t' es u ∧ u.Deadlocked := by
  have hblock : ∀ u : CellThread ρ, u.SemOk → u.owner = .closing → ¬ 0 < u.sem.waitCount →
      u.AnyExiting → ∃ es v, (system onRun).Path u es v ∧ v.Deadlocked := by
    intro u hu hc hz hx
    have hw : u.sem.wait.2 = false := by
      rw [semWait_eq hu hc]
      exact decide_eq_false hz
    exact ⟨_, _, .single (next_eq_some_iff.mpr (.waitBlock hc hw)), rfl, hx⟩
  have hsem := h.sem.step hs
  cases hs with
  | start | startAgain | exit | waitReturn | waitBlock | retestReturn | retestBlock =>
      exact absurd trivial ho
  | closeAgain _ hr =>
      refine absurd (fun ht => ?_) ho
      rw [hr] at ht
      cases ht
  | close hi hr =>
      simp only [ExitsApart, Classical.not_imp] at ho
      exact hblock _ hsem rfl ho.2.2 ho.2.1
  | @work i pc k pc' b sem hpc hw =>
      simp only [ExitsApart, Classical.not_imp] at ho
      obtain ⟨⟨r, r', hr, hstep⟩, hbad⟩ := ho
      obtain rfl := Option.some.inj (hr.symm.trans hpc)
      cases hw with
      | goto hg | ret hg => rw [hstep] at hg; cases hg
      | @callExit _ r' _ hg =>
          obtain ⟨hi, _⟩ := List.getElem?_eq_some_iff.mp hpc
          have hx : AnyExiting { t with workers := t.workers.set i (.exiting r') } :=
            ⟨i, r', List.getElem?_set_self hi⟩
          by_cases hb : t.owner = .blocked
          · exact ⟨[], _, .nil _, hb, hx⟩
          · obtain ⟨hc, hz⟩ := Classical.not_imp.mp fun hc => hbad ⟨hb, hc⟩
            exact hblock _ hsem hc hz hx

/-- In every run whose steps keep `Close` and `Exit` apart no deadlock occurs; and the
first step that does not keep them apart can end in one. -/
theorem no_deadlock (h : ((system onRun).guard (ExitsApart onRun)).Reachable t) :
    ¬ t.Deadlocked ∧ ∀ e t', t.next onRun e = some t' → ¬ ExitsApart onRun t e →
      ∃ es u, (system onRun).Path t' es u ∧ u.Deadlocked := by
  have hi := deadlockInv_reachable h
  exact ⟨fun hd => hi.blocked hd.1 hd.2,
    fun e t' hn ho => hi.deadlocks (next_eq_some_iff.mp hn) ho⟩

/-- `Close` waits for a worker that is in the body of its loop. -/
def awaited : CellThread OnRunPc := ⟨false, ⟨-1, 0⟩, .blocked, [.running .body]⟩

theorem awaited_reachable :
    ((system busyLoop).guard (ExitsApart busyLoop)).Reachable awaited := by
  have henter : ExitsApart busyLoop ⟨true, .new, .idle, [.created]⟩ (.work 0 none) := by
    rintro ⟨r, r', hr, -⟩
    cases hr
  have htest : ExitsApart busyLoop ⟨true, .new, .idle, [.running .test]⟩ (.work 0 none) := by
    rintro ⟨r, r', hr, hs⟩
    obtain rfl := WorkerPc.running.inj (Option.some.inj hr)
    cases hs
  have hclose : ExitsApart busyLoop ⟨true, .new, .idle, [.running .body]⟩ .close := by
    rintro - ⟨i, r, hr⟩
    have hmem := List.mem_of_getElem? hr
    simp at hmem
  exact ⟨new, [.start, .work 0 none, .work 0 none, .close, .semWait], rfl,
    .cons ⟨trivial, rfl⟩ (.cons ⟨henter, rfl⟩ (.cons ⟨htest, rfl⟩ (.cons ⟨hclose, rfl⟩
      (.single ⟨trivial, rfl⟩))))⟩

theorem no_deadlock_awaited : awaited.owner = .blocked ∧ ¬ awaited.Deadlocked ∧
    ∀ e t', awaited.next busyLoop e = some t' → ¬ ExitsApart busyLoop awaited e →
      ∃ es u, (system busyLoop).Path t' es u ∧ u.Deadlocked :=
  ⟨rfl, no_deadlock awaited_reachable⟩

/-- The worker has entered `DoNetEvent` when `Close` clears the flag; `DoNetEvent` then
fails, and `Close` waits for the signal of a worker that waits for `Close`. -/
theorem close_deadlocks :
    ∃ t, (system busyLoop).Reachable t ∧ t.Deadlocked := by
  let es : List (ThreadEvent (Option Bool)) :=
    [.start, .work 0 none, .work 0 none, .work 0 none, .work 0 none, .close,
      .work 0 (some false), .semWait]
  have hp : ∃ t, (system busyLoop).Path new es t ∧
      t = ⟨false, ⟨-1, 0⟩, .blocked, [.exiting .left]⟩ :=
    ⟨_, .cons rfl (.cons rfl (.cons rfl (.cons rfl (.cons rfl (.cons rfl (.cons rfl
      (.cons rfl (.nil _)))))))), rfl⟩
  obtain ⟨t, hp, rfl⟩ := hp
  exact ⟨_, ⟨new, es, rfl, hp⟩, rfl, 0, .left, rfl⟩

end CellNet.CellThread
