import CellNet.Verification.Thread.Close

/-! Who turns `_isRun` off. A worker writes the flag after its signal, when `Close` may have
returned and another worker may have been started. -/

namespace CellNet

open Library

variable {ρ κ : Type*}

/-- The worker is on its way to clear the flag: inside `Exit`, or behind the return of its run
callback. -/
def WorkerPc.Clears : WorkerPc ρ → Prop
  | .exiting _ | .destroying | .waking | .clearing => True
  | _ => False

/-- The run callback has returned. -/
def WorkerPc.Past : WorkerPc ρ → Prop
  | .destroying | .waking | .clearing | .ended => True
  | _ => False

namespace CellThread

variable {onRun : RunCallback ρ κ} {t t' : CellThread ρ}

/-- The step is a call of `Close` or of `Exit`, by the owner or by the callback of the newest
worker. -/
def Stops (t : CellThread ρ) : ThreadEvent κ → Prop
  | .close | .exit => True
  | .work i _ => i + 1 = t.workers.length ∧ ∃ r, t.workers[i]? = some (.exiting r)
  | _ => False

/-- A worker is created when no earlier one is on its way to clear the flag, and while the flag is
set only the newest callback returns or calls `Exit`. -/
def Settled (onRun : RunCallback ρ κ) (t : CellThread ρ) : ThreadEvent κ → Prop
  | .start => t.isRun = false → ∀ pc ∈ t.workers, ¬ pc.Clears
  | .work i k => t.isRun = true → ∀ r, t.workers[i]? = some (.running r) →
      (∀ r', onRun.step true r k ≠ .goto r') → i + 1 = t.workers.length
  | _ => True

/-- While the flag is set only the newest worker can have it to clear. -/
def FlagOwned (t : CellThread ρ) : Prop :=
  t.isRun = true → ∀ (i : ℕ) (pc : WorkerPc ρ), t.workers[i]? = some pc → pc.Clears →
    i + 1 = t.workers.length

/-- The step that turns the flag off is a `Close`, an `Exit`, or the last one of the newest
worker. -/
def TurnsOff (t : CellThread ρ) (e : ThreadEvent κ) : Prop :=
  Stops t e ∨ ∃ i k, e = .work i k ∧ i + 1 = t.workers.length ∧ t.workers[i]? = some .clearing

theorem Works.past {pc pc' : WorkerPc ρ} {k : κ} {b : Bool} {sem : CellSemaphore}
    (h : Works onRun t pc k pc' b sem) (hp : pc.Past) : pc'.Past := by
  cases h with
  | destroy | wake | clear => trivial
  | create | goto | callExit | ret | exit => cases hp

theorem FlagOwned.start (hs : ∀ pc ∈ t.workers, ¬ pc.Clears) :
    FlagOwned { t with isRun := true, workers := t.workers ++ [.created] } := by
  intro _ i pc hpc hr
  rcases List.mem_append.mp (List.mem_of_getElem? hpc) with hm | hm
  · exact absurd hr (hs pc hm)
  · obtain rfl := List.mem_singleton.mp hm
    cases hr

theorem FlagOwned.work (h : t.FlagOwned) {i : ℕ} {pc pc' : WorkerPc ρ} {k : κ} {b : Bool}
    {sem : CellSemaphore} (ho : Settled onRun t (.work i k)) (hpc : t.workers[i]? = some pc)
    (hw : Works onRun t pc k pc' b sem) :
    FlagOwned { t with isRun := b, sem := sem, workers := t.workers.set i pc' } := by
  intro hb j qc hqc hr
  rw [List.length_set]
  rcases getElem?_set_cases hqc with ⟨rfl, rfl⟩ | ⟨hne, hj⟩
  · cases hw with
    | create | goto | exit => cases hr
    | callExit hs | ret hs =>
        have hb' : t.isRun = true := hb
        rw [hb'] at hs
        refine ho hb' _ hpc fun r' hgoto => ?_
        rw [hs] at hgoto
        cases hgoto
    | destroy | wake => exact h hb _ _ hpc trivial
    | clear => cases hb
  · cases hw with
    | create | goto | callExit | ret | destroy | wake => exact h hb _ _ hj hr
    | exit | clear => cases hb

theorem FlagOwned.step (h : t.FlagOwned) {e : ThreadEvent κ} (ho : Settled onRun t e)
    (hs : Steps onRun t e t') : t'.FlagOwned := by
  cases hs with
  | start _ hr => exact .start (ho hr)
  | startAgain | closeAgain => exact h
  | close | exit =>
      intro hr
      cases hr
  | waitReturn | waitBlock | retestReturn | retestBlock => exact h
  | work hpc hw => exact h.work ho hpc hw

theorem flagOwned_reachable (h : ((system onRun).guard (Settled onRun)).Reachable t) :
    t.FlagOwned := by
  have hinv : ((system onRun).guard (Settled onRun)).Invariant FlagOwned := by
    constructor
    · intro s hs
      obtain rfl := hs
      intro hr
      cases hr
    · intro s e s' hs hst
      exact hs.step hst.1 (next_eq_some_iff.mp hst.2)
  exact hinv.reachable h

theorem FlagOwned.turnsOff (h : t.FlagOwned) {e : ThreadEvent κ} (hr : t.isRun = true)
    (hs : Steps onRun t e t') (hr' : t'.isRun = false) : TurnsOff t e := by
  cases hs with
  | start _ hf =>
      rw [hr] at hf
      cases hf
  | close | closeAgain | exit => exact .inl trivial
  | startAgain | waitReturn | waitBlock | retestReturn | retestBlock =>
      simp only [hr, Bool.true_eq_false] at hr'
  | work hpc hw =>
      cases hw with
      | create | goto | callExit | ret | destroy | wake =>
          simp only [hr, Bool.true_eq_false] at hr'
      | exit => exact .inl ⟨h hr _ _ hpc trivial, _, hpc⟩
      | clear => exact .inr ⟨_, _, rfl, h hr _ _ hpc trivial, hpc⟩

/-- The runs without a call of `Close` or `Exit`. -/
def undisturbed (onRun : RunCallback ρ κ) : System (CellThread ρ) (ThreadEvent κ) :=
  ((system onRun).guard (Settled onRun)).guard fun t e => ¬ Stops t e

/-- The flag is set for worker `n`, or the callback of this worker has returned. -/
def SetFor (n : ℕ) (t : CellThread ρ) : Prop :=
  t.FlagOwned ∧ (t.isRun = true ∧ n + 1 = t.workers.length ∨
    ∃ pc, t.workers[n]? = some pc ∧ pc.Past)

/-- Once its callback has returned, a worker does not come back. -/
theorem past_step {n : ℕ} {pc : WorkerPc ρ} (hpc : t.workers[n]? = some pc) (hp : pc.Past)
    {e : ThreadEvent κ} (hs : Steps onRun t e t') :
    ∃ pc, t'.workers[n]? = some pc ∧ pc.Past := by
  have hn := (List.getElem?_eq_some_iff.mp hpc).1
  cases hs with
  | start => exact ⟨pc, by rwa [List.getElem?_append_left hn], hp⟩
  | startAgain | close | closeAgain | exit | waitReturn | waitBlock | retestReturn
  | retestBlock => exact ⟨pc, hpc, hp⟩
  | @work i qc k qc' b sem hqc hw =>
      by_cases hi : i = n
      · subst hi
        obtain rfl := Option.some.inj (hpc.symm.trans hqc)
        exact ⟨qc', List.getElem?_set_self hn, hw.past hp⟩
      · exact ⟨pc, by rwa [List.getElem?_set_ne hi], hp⟩

theorem SetFor.step {n : ℕ} (h : t.SetFor n) {e : ThreadEvent κ}
    (hs : (undisturbed onRun).step t e t') : t'.SetFor n := by
  obtain ⟨hq, ho, hs⟩ := hs
  have hst := next_eq_some_iff.mp hs
  refine ⟨h.1.step ho hst, ?_⟩
  rcases h.2 with ⟨hr, hn⟩ | ⟨pc, hpc, hp⟩
  · cases hr' : t'.isRun with
    | true =>
        refine .inl ⟨rfl, hn.trans ?_⟩
        cases hst with
        | start _ hf =>
            rw [hr] at hf
            cases hf
        | startAgain | close | closeAgain | exit | waitReturn | waitBlock | retestReturn
        | retestBlock => rfl
        | work => exact (List.length_set ..).symm
    | false =>
        right
        rcases h.1.turnsOff hr hst hr' with hstop | ⟨i, k, rfl, hi, hpc⟩
        · exact absurd hstop hq
        · obtain rfl : i = n := by omega
          exact past_step hpc trivial hst
  · exact .inr (past_step hpc hp hst)

/-- When no new worker overlaps with an earlier one that clears the flag, only the owner and the
newest worker turn the flag off: without a `Close` or an `Exit` of these it stays set until the
callback of the worker it was set for has returned. -/
theorem isRun_until_returned (h : ((system onRun).guard (Settled onRun)).Reachable t)
    (hr : t.isRun = true) :
    (∀ e t', (system onRun).step t e t' → t'.isRun = false → TurnsOff t e) ∧
      ∀ n, n + 1 = t.workers.length → ∀ es t', (undisturbed onRun).Path t es t' →
        t'.isRun = true ∧ n + 1 = t'.workers.length ∨
          ∃ pc, t'.workers[n]? = some pc ∧ pc.Past := by
  have ho := flagOwned_reachable h
  constructor
  · intro e t' hs
    exact ho.turnsOff hr (next_eq_some_iff.mp hs)
  · intro n hn es t' hp
    have hset : t'.SetFor n := hp.preserves (fun _ _ _ hs hst => hs.step hst) ⟨ho, .inl ⟨hr, hn⟩⟩
    exact hset.2

/-- Worker `i` alone can turn the flag off. -/
def ClearsBy (onRun : RunCallback ρ κ) (t : CellThread ρ) (i : ℕ) : Prop :=
  ∃ es t', (system onRun).Path t es t' ∧ (∀ e ∈ es, ∃ k, e = .work i k) ∧ t'.isRun = false

theorem clears_then {i : ℕ} {pc pc' : WorkerPc ρ} {k : κ} {b : Bool} {sem : CellSemaphore}
    (hpc : t.workers[i]? = some pc) (hw : Works onRun t pc k pc' b sem)
    (h : ClearsBy onRun { t with isRun := b, sem := sem, workers := t.workers.set i pc' } i) :
    ClearsBy onRun t i := by
  obtain ⟨es, t', hp, he, hf⟩ := h
  refine ⟨.work i k :: es, t', .cons (next_eq_some_iff.mpr (.work hpc hw)) hp, ?_, hf⟩
  intro e hm
  rcases List.mem_cons.mp hm with rfl | hm
  · exact ⟨k, rfl⟩
  · exact he e hm

theorem clearsBy_clearing (k : κ) {i : ℕ} (hpc : t.workers[i]? = some .clearing) :
    ClearsBy onRun t i :=
  clears_then hpc (.clear (k := k)) ⟨[], _, .nil _, by simp, rfl⟩

theorem clearsBy_waking (k : κ) {i : ℕ} (hpc : t.workers[i]? = some .waking)
    (hlt : t.sem.waitCount < 2147483647) : ClearsBy onRun t i :=
  clears_then hpc (.wake (k := k) hlt) (clearsBy_clearing k (getElem?_set_same hpc _))

/-- A worker on its way to clear the flag can do so, whoever it is set for. -/
theorem clearsBy_of_clears (k : κ) {i : ℕ} {pc : WorkerPc ρ} (hpc : t.workers[i]? = some pc)
    (hc : pc.Clears) (ho : t.owner = .idle) (hlt : t.sem.waitCount < 2147483647) :
    ClearsBy onRun t i := by
  cases pc with
  | exiting => exact clears_then hpc (.exit (k := k) ho) ⟨[], _, .nil _, by simp, rfl⟩
  | destroying =>
      exact clears_then hpc (.destroy (k := k))
        (clearsBy_waking k (getElem?_set_same hpc _) hlt)
  | waking => exact clearsBy_waking k hpc hlt
  | clearing => exact clearsBy_clearing k hpc
  | created | running | ended => cases hc

theorem isRun_until_returned_busy :
    ∃ t' : CellThread OnRunPc, (undisturbed CellServer.busyLoop).Path
        ⟨true, .new, .idle, [.created]⟩ [.work 0 none, .work 0 none] t' ∧
      (t'.isRun = true ∧ 0 + 1 = t'.workers.length ∨
        ∃ pc, t'.workers[0]? = some pc ∧ pc.Past) := by
  have h : ((system CellServer.busyLoop).guard (Settled CellServer.busyLoop)).Reachable
      ⟨true, .new, .idle, [.created]⟩ :=
    ⟨new, [.start], rfl, .single ⟨by simp [Settled, new], rfl⟩⟩
  have hp : (undisturbed CellServer.busyLoop).Path ⟨true, .new, .idle, [.created]⟩
      [.work 0 none, .work 0 none] ⟨true, .new, .idle, [.running .body]⟩ := by
    refine .cons ⟨?_, ?_, rfl⟩ (.single ⟨?_, ?_, rfl⟩)
    · simp [Stops]
    · simp [Settled]
    · simp [Stops, CellServer.busyLoop, CellServer.onRun]
    · simp [Settled]
  exact ⟨_, hp, (isRun_until_returned h rfl).2 0 rfl _ _ hp⟩

/-- `Close` has returned and a second worker is there, when the first one clears the flag. -/
theorem first_worker_clears :
    ∃ t t' : CellThread OnRunPc, (system CellServer.busyLoop).Reachable t ∧ t.isRun = true ∧
      t.workers = [.clearing, .created] ∧
      (system CellServer.busyLoop).step t (.work 0 none) t' ∧ t'.isRun = false ∧
      ¬ TurnsOff t (.work 0 none : ThreadEvent (Option Bool)) := by
  refine ⟨⟨true, ⟨0, 0⟩, .idle, [.clearing, .created]⟩, _,
    ⟨new, [.start, .work 0 none, .close, .work 0 none, .work 0 none, .work 0 none, .semWait,
      .start], rfl, System.Path.of_next (next CellServer.busyLoop) (fun _ _ _ h => h) rfl⟩,
    rfl, rfl, rfl, rfl, ?_⟩
  simp [TurnsOff, Stops]

end CellThread

end CellNet
