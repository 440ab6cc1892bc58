import CellNet.Model.ServerLoop
import CellNet.Verification.Thread.Semantics

/-! When a returning `Close` has waited for the workers. What it waits for is a count of
the semaphore, which need not come from the worker that still runs. -/

namespace CellNet

open Library

variable {ρ κ : Type*}

/-- The worker has returned from `_onDestory`. -/
def WorkerPc.Destroyed : WorkerPc ρ → Prop
  | .waking | .clearing | .ended => True
  | _ => False

/-- The worker can come to `_sem.wakeup()` without `_mutex`. -/
def WorkerPc.CanSignal : WorkerPc ρ → Prop
  | .created | .running _ | .destroying | .waking => True
  | _ => False

namespace CellThread

variable {onRun : RunCallback ρ κ} {t t' : CellThread ρ}

def AllDestroyed (t : CellThread ρ) : Prop :=
  ∀ (i : ℕ) (pc : WorkerPc ρ), t.workers[i]? = some pc → pc.Destroyed

/-- No worker can signal before another one is destroyed. -/
def LoneSignal (t : CellThread ρ) : Prop :=
  ∀ (i j : ℕ) (pc qc : WorkerPc ρ), t.workers[i]? = some pc → t.workers[j]? = some qc →
    pc.CanSignal → ¬ qc.Destroyed → i = j

/-- `Close` takes `_mutex` when all workers are destroyed, or when the flag is still set,
no count is left over and the next signal comes from the only worker not destroyed. -/
def ClosesInTime (t : CellThread ρ) : ThreadEvent κ → Prop
  | .close => t.AllDestroyed ∨ t.isRun = true ∧ t.sem.waitCount = 0 ∧ t.LoneSignal
  | _ => True

/-- A call of `Close` returns in the step from `t` to `t'`. -/
def CloseReturns (e : ThreadEvent κ) (t' : CellThread ρ) : Prop :=
  t'.owner = .idle ∧ (e = .close ∨ e = .semWait ∨ e = .semRetest)

/-- While `Close` waits, a count it could take means that all workers are destroyed. -/
structure CloseInv (t : CellThread ρ) : Prop where
  sem : t.SemOk
  closing : t.owner = .closing →
    t.AllDestroyed ∨ t.LoneSignal ∧ t.sem.waitCount = 0
  blocked : t.owner = .blocked →
    t.AllDestroyed ∨ t.LoneSignal ∧ t.sem.wakeupCount = 0

theorem Works.destroyed {pc pc' : WorkerPc ρ} {k : κ} {b : Bool} {sem : CellSemaphore}
    (h : Works onRun t pc k pc' b sem) (hd : pc.Destroyed) : pc'.Destroyed := by
  cases h with
  | wake | clear => trivial
  | create | goto | callExit | ret | exit | destroy => cases hd

/-- During a `Close` no worker gets past the lock. -/
theorem Works.canSignal {pc pc' : WorkerPc ρ} {k : κ} {b : Bool} {sem : CellSemaphore}
    (h : Works onRun t pc k pc' b sem) (ho : t.owner ≠ .idle) (hc : pc'.CanSignal) :
    pc.CanSignal := by
  cases h with
  | create | goto | ret | destroy => trivial
  | callExit | wake | clear => cases hc
  | exit hi => exact absurd hi ho

theorem AllDestroyed.work {i : ℕ} {pc pc' : WorkerPc ρ} {k : κ} {b : Bool}
    {sem : CellSemaphore} (hpc : t.workers[i]? = some pc) (hw : Works onRun t pc k pc' b sem)
    (h : t.AllDestroyed) :
    AllDestroyed { t with isRun := b, sem := sem, workers := t.workers.set i pc' } := by
  intro j qc hj
  rcases getElem?_set_cases hj with ⟨rfl, rfl⟩ | ⟨_, hj⟩
  · exact hw.destroyed (h j pc hpc)
  · exact h j qc hj

theorem LoneSignal.work {i : ℕ} {pc pc' : WorkerPc ρ} {k : κ} {b : Bool}
    {sem : CellSemaphore} (hpc : t.workers[i]? = some pc) (hw : Works onRun t pc k pc' b sem)
    (ho : t.owner ≠ .idle) (h : t.LoneSignal) :
    LoneSignal { t with isRun := b, sem := sem, workers := t.workers.set i pc' } := by
  intro j l qj ql hj hl hs hd
  rcases getElem?_set_cases hj with ⟨rfl, rfl⟩ | ⟨_, hj'⟩
  · rcases getElem?_set_cases hl with ⟨rfl, rfl⟩ | ⟨_, hl'⟩
    · rfl
    · exact h j l pc ql hpc hl' (hw.canSignal ho hs) hd
  · rcases getElem?_set_cases hl with ⟨rfl, rfl⟩ | ⟨_, hl'⟩
    · exact h j l qj pc hj' hpc hs fun hd' => hd (hw.destroyed hd')
    · exact h j l qj ql hj' hl' hs hd

/-- The signal of the only worker that can give one comes when all are destroyed. -/
theorem LoneSignal.wake {i : ℕ} (hpc : t.workers[i]? = some .waking) (h : t.LoneSignal) :
    t.AllDestroyed := by
  intro j qc hj
  refine Classical.byContradiction fun hd => hd ?_
  obtain rfl := h i j .waking qc hpc hj trivial hd
  obtain rfl := Option.some.inj (hpc.symm.trans hj)
  trivial

/-- While `Close` waits, a worker either signals as the last one or leaves the count. -/
theorem work_during_close {i : ℕ} {pc pc' : WorkerPc ρ} {k : κ} {b : Bool}
    {sem : CellSemaphore} (hpc : t.workers[i]? = some pc) (hw : Works onRun t pc k pc' b sem)
    (ho : t.owner ≠ .idle) (h : t.LoneSignal) :
    AllDestroyed { t with isRun := b, sem := sem, workers := t.workers.set i pc' } ∨
      LoneSignal { t with isRun := b, sem := sem, workers := t.workers.set i pc' } ∧
        sem = t.sem := by
  have hl := h.work hpc hw ho
  cases hw with
  | @wake k hlt =>
      have hw : Works onRun t .waking k .clearing t.isRun t.sem.wakeup := .wake hlt
      exact .inl ((h.wake hpc).work hpc hw)
  | create | goto | callExit | ret | exit | destroy | clear => exact .inr ⟨hl, rfl⟩

theorem CloseInv.step (h : t.CloseInv) {e : ThreadEvent κ} (ho : ClosesInTime t e)
    (hs : Steps onRun t e t') : t'.CloseInv := by
  refine ⟨h.sem.step hs, fun hc => ?_, fun hb => ?_⟩
  · cases hs with
    | start hi | startAgain hi | closeAgain hi | exit hi => simp [hi] at hc
    | close hi hr =>
        rcases ho with hd | ⟨_, hz, hl⟩
        · exact .inl hd
        · exact .inr ⟨hl, hz⟩
    | waitReturn | waitBlock | retestReturn | retestBlock => simp at hc
    | work hpc hw =>
        have hne : t.owner ≠ .idle := by simp [show t.owner = .closing from hc]
        rcases h.closing hc with hd | ⟨hl, hz⟩
        · exact .inl (hd.work hpc hw)
        · rcases work_during_close hpc hw hne hl with hd | ⟨hl', rfl⟩
          · exact .inl hd
          · exact .inr ⟨hl', hz⟩
  · cases hs with
    | start hi | startAgain hi | closeAgain hi | exit hi => simp [hi] at hb
    | close | waitReturn | retestReturn => simp at hb
    | waitBlock hi hr =>
        rw [semWait_eq h.sem hi]
        rcases h.closing hi with hd | ⟨hl, _⟩
        · exact .inl hd
        · exact .inr ⟨hl, (h.sem.free (by simp [hi])).1⟩
    | retestBlock hi hr =>
        rcases h.blocked hi with hd | ⟨hl, hz⟩
        · exact .inl hd
        · exact .inr ⟨hl, by simp [CellSemaphore.retest, hz]⟩
    | work hpc hw =>
        have hne : t.owner ≠ .idle := by simp [show t.owner = .blocked from hb]
        rcases h.blocked hb with hd | ⟨hl, hz⟩
        · exact .inl (hd.work hpc hw)
        · rcases work_during_close hpc hw hne hl with hd | ⟨hl', rfl⟩
          · exact .inl hd
          · exact .inr ⟨hl', hz⟩

theorem closeInv_reachable
    (h : ((system onRun).guard ClosesInTime).Reachable t) : t.CloseInv := by
  have hinv : ((system onRun).guard ClosesInTime).Invariant CloseInv := by
    refine ⟨?_, fun s e t hi hst => hi.step hst.1 (next_eq_some_iff.mp hst.2)⟩
    rintro _ rfl
    exact ⟨semOk_new, fun h => by simp [new] at h, fun h => by simp [new] at h⟩
  exact hinv.reachable h

/-- Where `Close` returns, it has found a count or an unset flag. -/
theorem CloseInv.allDestroyed (h : t.CloseInv) {e : ThreadEvent κ} (ho : ClosesInTime t e)
    (hs : Steps onRun t e t') (hr : CloseReturns e t') : t'.AllDestroyed := by
  obtain ⟨hidle, he⟩ := hr
  cases hs with
  | start | startAgain | exit | work => simp at he
  | close => cases hidle
  | closeAgain _ hrun =>
      rcases ho with hd | ⟨ht, _⟩
      · exact hd
      · rw [hrun] at ht
        cases ht
  | waitReturn hi hw =>
      rw [semWait_eq h.sem hi] at hw
      have hpos := of_decide_eq_true hw
      rcases h.closing hi with hd | ⟨_, hz⟩
      · exact hd
      · omega
  | waitBlock | retestBlock => cases hidle
  | retestReturn hi hw =>
      rcases h.blocked hi with hd | ⟨_, hz⟩
      · exact hd
      · simp [CellSemaphore.retest, hz] at hw

/-- In every run in which each `Close` comes in time, all workers have returned from
`_onDestory` when it returns. -/
theorem close_waits (h : ((system onRun).guard ClosesInTime).Reachable t)
    {e : ThreadEvent κ} (hs : ((system onRun).guard ClosesInTime).step t e t')
    (hr : CloseReturns e t') :
    ∀ (i : ℕ) (pc : WorkerPc ρ), t'.workers[i]? = some pc → pc.Destroyed :=
  (closeInv_reachable h).allDestroyed hs.1 (next_eq_some_iff.mp hs.2) hr

theorem loneSignal_of_length (h : t.workers.length ≤ 1) : t.LoneSignal := by
  intro i j pc qc hi hj _ _
  obtain ⟨hi, _⟩ := List.getElem?_eq_some_iff.mp hi
  obtain ⟨hj, _⟩ := List.getElem?_eq_some_iff.mp hj
  omega

/-- The worker has signalled a `Close` that was in time. -/
def signalled : CellThread OnRunPc :=
  ⟨false, ⟨0, 1⟩, .blocked, [.clearing]⟩

theorem close_waits_signalled : (.clearing : WorkerPc OnRunPc).Destroyed := by
  have hl : LoneSignal (⟨true, ⟨0, 0⟩, .idle, [.running .test]⟩ : CellThread OnRunPc) :=
    loneSignal_of_length (Nat.le_refl 1)
  have hp : ((system CellServer.busyLoop).guard ClosesInTime).Path new
      [.start, .work 0 none, .close, .semWait, .work 0 none, .work 0 none, .work 0 none]
      signalled :=
    .cons ⟨trivial, rfl⟩ (.cons ⟨trivial, rfl⟩ (.cons ⟨.inr ⟨rfl, rfl, hl⟩, rfl⟩
      (.cons ⟨trivial, rfl⟩ (.cons ⟨trivial, rfl⟩ (.cons ⟨trivial, rfl⟩
        (.cons ⟨trivial, rfl⟩ (.nil _)))))))
  have hs : ((system CellServer.busyLoop).guard ClosesInTime).step signalled .semRetest
      ⟨false, ⟨0, 0⟩, .idle, [.clearing]⟩ := ⟨trivial, rfl⟩
  exact close_waits ⟨new, _, rfl, hp⟩ hs ⟨rfl, .inr (.inr rfl)⟩ 0 _ rfl

/-- A worker that left its loop through `Exit` is not waited for at all. -/
theorem close_returns_early :
    ∃ t t', (system CellServer.busyLoop).Reachable t ∧
      (system CellServer.busyLoop).step t .close t' ∧
      CloseReturns (.close : ThreadEvent (Option Bool)) t' ∧
      ¬ ∀ (i : ℕ) (pc : WorkerPc OnRunPc), t'.workers[i]? = some pc → pc.Destroyed := by
  have hp : (system CellServer.busyLoop).Path new
      [.start, .work 0 none, .work 0 none, .work 0 none, .work 0 none, .work 0 (some false),
        .work 0 none] ⟨false, ⟨0, 0⟩, .idle, [.running .left]⟩ :=
    .cons rfl (.cons rfl (.cons rfl (.cons rfl (.cons rfl (.cons rfl (.cons rfl (.nil _)))))))
  exact ⟨_, _, ⟨new, _, rfl, hp⟩, rfl, ⟨rfl, .inl rfl⟩, fun h => h 0 _ rfl⟩

/-! ### The condition is needed -/

/-- Once the flag is cleared, the callback can come to its return. -/
inductive CanReturn (onRun : RunCallback ρ κ) : ρ → Prop where
  | ret {r k} : onRun.step false r k = .ret → CanReturn onRun r
  | goto {r r' k} : onRun.step false r k = .goto r' → CanReturn onRun r' → CanReturn onRun r

/-- `Close` is about to wait, and no count is left over. -/
structure AboutToWait (t : CellThread ρ) : Prop where
  owner : t.owner = .closing
  isRun : t.isRun = false
  count : t.sem.waitCount = 0

/-- `v` differs from `t` only in worker `i`, which has signalled. -/
structure SignalledBy (t : CellThread ρ) (i : ℕ) (v : CellThread ρ) : Prop where
  owner : v.owner = .closing
  count : 0 < v.sem.waitCount
  others : ∀ j, j ≠ i → v.workers[j]? = t.workers[j]?

def SignalsBy (onRun : RunCallback ρ κ) (t : CellThread ρ) (i : ℕ) : Prop :=
  ∃ es v, (system onRun).Path t es v ∧ t.SignalledBy i v

theorem work_then {i : ℕ} {pc pc' : WorkerPc ρ} {k : κ} {b : Bool} {sem : CellSemaphore}
    (hpc : t.workers[i]? = some pc) (hw : Works onRun t pc k pc' b sem)
    (h : SignalsBy onRun { t with isRun := b, sem := sem, workers := t.workers.set i pc' } i) :
    SignalsBy onRun t i := by
  obtain ⟨es, v, hp, hv⟩ := h
  refine ⟨.work i k :: es, v, .cons (next_eq_some_iff.mpr (.work hpc hw)) hp, hv.owner,
    hv.count, fun j hj => ?_⟩
  rw [hv.others j hj]
  exact List.getElem?_set_ne (Ne.symm hj)

theorem signalsBy_waking (k : κ) {i : ℕ} (h : t.AboutToWait)
    (hpc : t.workers[i]? = some .waking) : SignalsBy onRun t i := by
  have hlt : t.sem.waitCount < 2147483647 := by
    have := h.count
    omega
  refine work_then hpc (.wake (k := k) hlt) ⟨[], _, .nil _, h.owner, ?_, fun _ _ => rfl⟩
  simp [CellSemaphore.wakeup, h.count, wrap32]

theorem signalsBy_destroying (k : κ) {i : ℕ} (h : t.AboutToWait)
    (hpc : t.workers[i]? = some .destroying) : SignalsBy onRun t i := by
  refine work_then hpc (.destroy (k := k)) ?_
  exact signalsBy_waking k ⟨h.owner, h.isRun, h.count⟩ (getElem?_set_same hpc .waking)

theorem signalsBy_running (k : κ) {r : ρ} (hr : CanReturn onRun r) {i : ℕ}
    (h : t.AboutToWait) (hpc : t.workers[i]? = some (.running r)) : SignalsBy onRun t i := by
  induction hr generalizing t with
  | ret hs =>
      refine work_then hpc (.ret (by rw [h.isRun, hs])) ?_
      exact signalsBy_destroying k ⟨h.owner, h.isRun, h.count⟩ (getElem?_set_same hpc _)
  | goto hs _ ih =>
      refine work_then hpc (.goto (by rw [h.isRun, hs])) ?_
      exact ih ⟨h.owner, h.isRun, h.count⟩ (getElem?_set_same hpc _)

/-- A worker in front of its signal can give it while `Close` is about to wait. -/
theorem signalsBy (k : κ) (hret : ∀ r, CanReturn onRun r) {i : ℕ} {pc : WorkerPc ρ}
    (h : t.AboutToWait) (hpc : t.workers[i]? = some pc) (hs : pc.CanSignal) :
    SignalsBy onRun t i := by
  cases pc with
  | created =>
      refine work_then hpc (.create (k := k)) ?_
      exact signalsBy_running k (hret _) ⟨h.owner, h.isRun, h.count⟩
        (getElem?_set_same hpc _)
  | running r => exact signalsBy_running k (hret r) h hpc
  | destroying => exact signalsBy_destroying k h hpc
  | waking => exact signalsBy_waking k h hpc
  | exiting | clearing | ended => cases hs

/-- A `Close` that does not come in time can return while a worker still has to come back
from `_onDestory`. -/
theorem close_too_early (k : κ) (hret : ∀ r, CanReturn onRun r) (h : t.CloseInv)
    (hs : t.next onRun .close = some t') (ho : ¬ ClosesInTime t (.close : ThreadEvent κ)) :
    ∃ es u e v, (system onRun).Path t es u ∧ u.next onRun e = some v ∧ CloseReturns e v ∧
      ¬ v.AllDestroyed := by
  simp only [ClosesInTime, not_or] at ho
  obtain ⟨hd, hn⟩ := ho
  cases next_eq_some_iff.mp hs with
  | closeAgain hi hr =>
      exact ⟨[], t, .close, t, .nil t, hs, ⟨hi, .inl rfl⟩, hd⟩
  | close hi hr =>
      have hsem := h.sem.step (next_eq_some_iff.mp hs)
      have hnext : ∀ u : CellThread ρ, u.SemOk → u.owner = .closing → 0 < u.sem.waitCount →
          ∃ v, u.next onRun .semWait = some v ∧ v.owner = .idle ∧ v.workers = u.workers := by
        intro u hu hc hpos
        have hw : u.sem.wait.2 = true := by
          rw [semWait_eq hu hc]
          exact decide_eq_true hpos
        exact ⟨_, next_eq_some_iff.mpr (.waitReturn hc hw), rfl, rfl⟩
      have hcount := (h.sem.free (by simp [hi])).2
      by_cases hpos : 0 < t.sem.waitCount
      · obtain ⟨v, hv, hvo, hvw⟩ := hnext _ hsem rfl hpos
        refine ⟨_, _, .semWait, v, .single hs, hv, ⟨hvo, .inr (.inl rfl)⟩, fun hall => hd ?_⟩
        intro i pc hpc
        exact hall i pc (by rw [hvw]; exact hpc)
      · have hz : t.sem.waitCount = 0 := by omega
        have hl : ¬ t.LoneSignal := fun hl => hn ⟨hr, hz, hl⟩
        simp only [LoneSignal, Classical.not_forall] at hl
        obtain ⟨i, j, pc, qc, hpc, hqc, hsig, hdes, hij⟩ := hl
        have ha : AboutToWait { t with isRun := false, owner := .closing } := ⟨rfl, rfl, hz⟩
        obtain ⟨es, u, hp, hu⟩ := signalsBy k hret ha hpc hsig
        have husem : u.SemOk := hp.preserves
          (fun _ _ _ hx hst => SemOk.step hx (next_eq_some_iff.mp hst)) hsem
        obtain ⟨v, hv, hvo, hvw⟩ := hnext u husem hu.owner hu.count
        refine ⟨_, u, .semWait, v, .cons hs hp, hv, ⟨hvo, .inr (.inl rfl)⟩, fun hall => hdes ?_⟩
        refine hall j qc ?_
        rw [hvw, hu.others j (Ne.symm hij)]
        exact hqc

end CellThread

end CellNet
