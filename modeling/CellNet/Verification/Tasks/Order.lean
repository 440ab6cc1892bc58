import CellNet.Verification.Tasks.Semantics

/-! One life of the task server: the tasks are executed in the order in which they were added,
and when `Close` returns, those added before it was called have been executed. -/

namespace CellNet

open Library CellThread

namespace CellTaskServer

variable {τ : Type*} {s s' : CellTaskServer τ}

/-- One `Start`, then one `Close`. -/
def Once (s : CellTaskServer τ) : TaskEvent τ → Prop
  | .start => s.thread.workers = []
  | .close => s.thread.workers ≠ [] ∧ s.closedAt = none
  | _ => True

structure Inv (s : CellTaskServer τ) : Prop where
  wait : s.thread.CloseInv
  one : s.thread.workers.length ≤ 1
  bound : ∀ n, s.closedAt = some n → n ≤ s.added.length
  unstarted : s.thread.workers = [] →
    s.tasks = [] ∧ s.executed ++ s.tasksBuf = s.added ∧ s.closedAt = none
  ordered : ∀ (i : ℕ) (pc : WorkerPc TaskPc), s.thread.workers[i]? = some pc → s.Ordered pc
  opened : s.closedAt = none → s.thread.owner = .idle ∧ s.thread.sem.waitCount = 0
  looping : s.closedAt = none → ∀ (i : ℕ) (pc : WorkerPc TaskPc),
    s.thread.workers[i]? = some pc → Loops pc ∧ s.thread.isRun = true
  closed : s.closedAt ≠ none → s.thread.owner = .idle → s.thread.AllDestroyed

theorem inv_new : (new : CellTaskServer τ).Inv where
  wait := closeInv_reachable (.init (S := (CellThread.system (loop 0 0)).guard ClosesInTime) rfl)
  one := Nat.zero_le 1
  bound _ h := by cases h
  unstarted _ := ⟨rfl, rfl, rfl⟩
  ordered _ _ h := by cases h
  opened _ := ⟨rfl, rfl⟩
  looping _ _ _ h := by cases h
  closed h := absurd rfl h

namespace Inv

theorem addTask (h : s.Inv) (task : τ) : (s.addTask task).Inv where
  wait := h.wait
  one := h.one
  bound n hn := by
    have hb := h.bound n hn
    show n ≤ (s.added ++ [task]).length
    rw [List.length_append]
    omega
  unstarted hw := by
    obtain ⟨ht, he, hc⟩ := h.unstarted hw
    refine ⟨ht, ?_, hc⟩
    show s.executed ++ (s.tasksBuf ++ [task]) = s.added ++ [task]
    rw [← he, List.append_assoc]
  ordered i pc hpc := (h.ordered i pc hpc).addTask task
  opened := h.opened
  looping := h.looping
  closed := h.closed

theorem start (h : s.Inv) (hn : s.thread.workers = []) {t : CellThread TaskPc}
    (hs : CellThread.Steps s.onRun s.thread .start t) : ({ s with thread := t }).Inv := by
  have htime : ClosesInTime s.thread (.start : ThreadEvent Unit) := trivial
  have hw := h.wait.step htime hs
  obtain ⟨ht, he, hc⟩ := h.unstarted hn
  cases hs with
  | startAgain => exact h
  | start ho hr =>
      have hone : ∀ (i : ℕ) (pc : WorkerPc TaskPc),
          (s.thread.workers ++ [.created])[i]? = some pc → pc = .created := by
        intro i pc hpc
        rw [hn] at hpc
        exact List.mem_singleton.mp (List.mem_of_getElem? hpc)
      constructor
      · exact hw
      · rw [hn]
        exact Nat.le_refl 1
      · exact h.bound
      · intro hnil
        exact absurd hnil (by simp)
      · intro i pc hpc
        rw [hone i pc hpc]
        exact ⟨ht, he⟩
      · exact h.opened
      · intro _ i pc hpc
        rw [hone i pc hpc]
        exact ⟨trivial, rfl⟩
      · intro hne
        exact absurd hc hne

theorem Ordered.of_loops {pc : WorkerPc TaskPc} (hl : Loops pc) (h : s.Ordered pc)
    (n : Option ℕ) : ({ s with closedAt := n }).Ordered pc := by
  cases pc with
  | created => exact h
  | running r => cases r <;> exact h
  | exiting | destroying | waking | clearing | ended => cases hl

theorem close (h : s.Inv) (hn : s.thread.workers ≠ []) (hc : s.closedAt = none)
    {t : CellThread TaskPc} (hs : CellThread.Steps s.onRun s.thread .close t) :
    ({ s with thread := t, closedAt := some s.added.length }).Inv := by
  obtain ⟨pc, ws, hws⟩ := List.exists_cons_of_ne_nil hn
  have hrun : s.thread.isRun = true := (h.looping hc 0 pc (by rw [hws]; rfl)).2
  have htime : ClosesInTime s.thread (.close : ThreadEvent Unit) :=
    .inr ⟨hrun, (h.opened hc).2, loneSignal_of_length h.one⟩
  have hw := h.wait.step htime hs
  cases hs with
  | closeAgain _ hr =>
      rw [hrun] at hr
      cases hr
  | close ho _ =>
      constructor
      · exact hw
      · exact h.one
      · intro n hb
        exact Nat.le_of_eq (Option.some.inj hb).symm
      · intro hnil
        exact absurd hnil hn
      · intro i qc hqc
        exact Ordered.of_loops (h.looping hc i qc hqc).1 (h.ordered i qc hqc) _
      · intro hb
        cases hb
      · intro hb
        cases hb
      · intro _ hi
        cases hi

/-- The two steps inside `Close`. -/
theorem closing (h : s.Inv) {e : ThreadEvent Unit} (he : e = .semWait ∨ e = .semRetest)
    {t : CellThread TaskPc} (hs : CellThread.Steps s.onRun s.thread e t) :
    ({ s with thread := t }).Inv := by
  have hin : ClosesInTime s.thread e := by
    rcases he with rfl | rfl
    · trivial
    · trivial
  have ho : s.thread.owner ≠ .idle ∧ t.workers = s.thread.workers := by
    rcases he with rfl | rfl
    · cases hs with
      | waitReturn hc | waitBlock hc => exact ⟨by rw [hc]; exact nofun, rfl⟩
    · cases hs with
      | retestReturn hc | retestBlock hc => exact ⟨by rw [hc]; exact nofun, rfl⟩
  have hc : s.closedAt ≠ none := fun hn => ho.1 (h.opened hn).1
  have hw := h.wait.step hin hs
  constructor
  · exact hw
  · rw [ho.2]
    exact h.one
  · exact h.bound
  · intro hnil
    rw [ho.2] at hnil
    exact h.unstarted hnil
  · intro i pc hpc
    rw [ho.2] at hpc
    exact h.ordered i pc hpc
  · intro hn
    exact absurd hn hc
  · intro hn
    exact absurd hn hc
  · intro _ hi
    exact h.wait.allDestroyed hin hs ⟨hi, .inr he⟩

/-- While `_isRun` is set the worker stays in the loop. -/
theorem Loops.work {pc pc' : WorkerPc TaskPc} {b : Bool} {sem : CellSemaphore} (hl : Loops pc)
    (hr : s.thread.isRun = true) (hw : Works s.onRun s.thread pc () pc' b sem) :
    Loops pc' ∧ b = true ∧ sem = s.thread.sem := by
  cases hw with
  | create => exact ⟨trivial, hr, rfl⟩
  | @goto r r' k hs =>
      refine ⟨?_, hr, rfl⟩
      rw [hr] at hs
      cases r with
      | test | drain | call | clear =>
          obtain rfl := RunStep.goto.inj hs
          trivial
      | testBuf | testTasks | exec =>
          simp only [onRun, loop] at hs
          split at hs
          · obtain rfl := RunStep.goto.inj hs
            trivial
          · obtain rfl := RunStep.goto.inj hs
            trivial
      | sweep | callBuf => cases hl
  | callExit hs => exact absurd hs no_exit
  | @ret r k hs =>
      cases r with
      | test | testBuf | testTasks | exec =>
          simp only [onRun, loop] at hs
          split at hs
          · cases hs
          · cases hs
      | drain | call | clear => cases hs
      | sweep | callBuf => cases hl
  | exit | destroy | wake | clear => cases hl

theorem work (h : s.Inv) {i : ℕ} {pc pc' : WorkerPc TaskPc} {b : Bool} {sem : CellSemaphore}
    (hpc : s.thread.workers[i]? = some pc) (hw : Works s.onRun s.thread pc () pc' b sem) :
    ({ s.lists pc with thread :=
      { s.thread with isRun := b, sem := sem, workers := s.thread.workers.set i pc' } }).Inv := by
  have htime : ClosesInTime s.thread (.work i () : ThreadEvent Unit) := trivial
  have hlen := h.one
  have hi := (List.getElem?_eq_some_iff.mp hpc).1
  have hone : ∀ (j : ℕ) (qc : WorkerPc TaskPc),
      (s.thread.workers.set i pc')[j]? = some qc → j = i ∧ qc = pc' := by
    intro j qc hqc
    rcases getElem?_set_cases hqc with hj | ⟨hne, hj⟩
    · exact hj
    · have := (List.getElem?_eq_some_iff.mp hj).1
      omega
  constructor
  · exact h.wait.step htime (.work hpc hw)
  · rw [List.length_set]
    exact hlen
  · intro n hn
    rw [lists_closedAt] at hn
    rw [lists_added]
    exact h.bound n hn
  · intro hnil
    rw [List.set_eq_nil_iff] at hnil
    rw [hnil] at hi
    exact absurd hi (Nat.not_lt_zero i)
  · intro j qc hqc
    obtain ⟨rfl, rfl⟩ := hone j qc hqc
    exact (h.ordered j pc hpc).work h.bound hw
  · intro hn
    rw [lists_closedAt] at hn
    obtain ⟨hl, hr⟩ := h.looping hn i pc hpc
    obtain ⟨-, -, rfl⟩ := Loops.work hl hr hw
    exact h.opened hn
  · intro hn j qc hqc
    obtain ⟨rfl, rfl⟩ := hone j qc hqc
    rw [lists_closedAt] at hn
    obtain ⟨hl, hr⟩ := h.looping hn j pc hpc
    obtain ⟨hl', rfl, -⟩ := Loops.work hl hr hw
    exact ⟨hl', rfl⟩
  · intro hn ho
    rw [lists_closedAt] at hn
    exact (h.closed hn ho).work hpc hw

theorem step (h : s.Inv) {e : TaskEvent τ} (ho : s.Once e) (hs : Steps s e s') : s'.Inv := by
  cases hs with
  | addTask => exact h.addTask _
  | start ht => exact h.start ho ht
  | close ht => exact h.close ho.1 ho.2 ht
  | semWait ht => exact h.closing (.inl rfl) ht
  | semRetest ht => exact h.closing (.inr rfl) ht
  | work hpc hw => exact h.work hpc hw

theorem isPrefix (h : s.Inv) : s.executed <+: s.added := by
  by_cases hn : s.thread.workers = []
  · exact ⟨_, (h.unstarted hn).2.1⟩
  · obtain ⟨pc, ws, hws⟩ := List.exists_cons_of_ne_nil hn
    exact (h.ordered 0 pc (by rw [hws]; rfl)).isPrefix

/-- Once `Close` has returned, the worker has left its sweep. -/
theorem executed (h : s.Inv) {n : ℕ} (hn : s.closedAt = some n) (ho : s.thread.owner = .idle) :
    n ≤ s.executed.length := by
  have hc : s.closedAt ≠ none := by
    rw [hn]
    exact Option.some_ne_none n
  by_cases hw : s.thread.workers = []
  · exact absurd (h.unstarted hw).2.2 hc
  · obtain ⟨pc, ws, hws⟩ := List.exists_cons_of_ne_nil hw
    have hpc : s.thread.workers[0]? = some pc := by rw [hws]; rfl
    have hord := h.ordered 0 pc hpc
    have hd := h.closed hc ho 0 pc hpc
    cases pc with
    | created | running | exiting | destroying => cases hd
    | waking | clearing | ended => exact hord.2 n hn

end Inv

theorem invariant : ((system τ).guard Once).Invariant Inv where
  init s hs := by
    obtain rfl := hs
    exact inv_new
  step _ _ _ h hs := h.step hs.1 (steps_of_next hs.2)

/-- In every state of one life the tasks executed are the first ones added, in their order, each
once; when `Close` has returned, those added before it was called are among them and no task is
running. -/
theorem tasks_in_order (h : ((system τ).guard Once).Reachable s) :
    s.executed <+: s.added ∧
      ∀ n, s.closedAt = some n → s.thread.owner = .idle →
        s.thread.AllDestroyed ∧ s.added.take n <+: s.executed := by
  have hi := invariant.reachable h
  refine ⟨hi.isPrefix, fun n hn ho => ⟨hi.closed (by rw [hn]; exact Option.some_ne_none n) ho, ?_⟩⟩
  have hle := hi.executed hn ho
  apply List.prefix_of_prefix_length_le (List.take_prefix n s.added) hi.isPrefix
  rw [List.length_take]
  omega

/-- A task that is added, executed in the loop, and swept up by a `Close`. -/
def swept : CellTaskServer ℕ :=
  ⟨[], [8], ⟨false, ⟨0, 0⟩, .idle, [.clearing]⟩, [7, 8], [7, 8], some 2⟩

/-- The first task is executed by the loop, the second one by the sweep. -/
theorem reachable_swept : ((system ℕ).guard Once).Reachable swept := by
  have hp : ((system ℕ).guard Once).Path new
      [.addTask 7, .start, .work 0, .work 0, .work 0, .work 0, .work 0, .work 0, .addTask 8,
      .work 0, .work 0, .close, .work 0, .work 0, .work 0, .work 0, .work 0, .work 0, .semWait,
      .work 0, .semRetest] swept :=
    .cons ⟨trivial, rfl⟩ (.cons ⟨rfl, rfl⟩ (.cons ⟨trivial, rfl⟩ (.cons ⟨trivial, rfl⟩
    (.cons ⟨trivial, rfl⟩ (.cons ⟨trivial, rfl⟩ (.cons ⟨trivial, rfl⟩ (.cons ⟨trivial, rfl⟩
    (.cons ⟨trivial, rfl⟩ (.cons ⟨trivial, rfl⟩ (.cons ⟨trivial, rfl⟩
    (.cons ⟨⟨List.cons_ne_nil _ _, rfl⟩, rfl⟩ (.cons ⟨trivial, rfl⟩ (.cons ⟨trivial, rfl⟩
    (.cons ⟨trivial, rfl⟩ (.cons ⟨trivial, rfl⟩ (.cons ⟨trivial, rfl⟩ (.cons ⟨trivial, rfl⟩
    (.cons ⟨trivial, rfl⟩ (.cons ⟨trivial, rfl⟩ (.cons ⟨trivial, rfl⟩ (.nil _)))))))))))))))))))))
  exact ⟨new, _, rfl, hp⟩

theorem tasks_in_order_swept : swept.added.take 2 <+: swept.executed :=
  ((tasks_in_order reachable_swept).2 2 rfl rfl).2

end CellTaskServer

end CellNet
