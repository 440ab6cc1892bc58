import CellNet.Verification.Tasks.Order
import Mathlib.Data.List.Perm.Subperm

/-! A task server that is closed and started again: what the last sweep has executed stays in
`_tasksBuf`, where the next life finds it. -/

namespace CellNet

open Library CellThread

namespace CellTaskServer

variable {τ : Type*} {s s' : CellTaskServer τ}

/-- A worker is created only when every earlier one has ended. -/
def Restarts (s : CellTaskServer τ) : TaskEvent τ → Prop
  | .start => s.thread.isRun = false → ∀ pc ∈ s.thread.workers, pc = .ended
  | _ => True

/-- A new worker finds in `_tasksBuf` the tasks that are not yet executed, and no others. -/
def Fresh (s : CellTaskServer τ) : TaskEvent τ → Prop
  | .start => s.thread.isRun = false → s.tasksBuf = s.added.drop s.executed.length
  | _ => True

/-- No task was executed more often than it was added. -/
def AtMostOnce (s : CellTaskServer τ) : Prop := s.executed.Subperm s.added

/-- The state as if `Close` had not been called. -/
def unclosed (s : CellTaskServer τ) : CellTaskServer τ := { s with closedAt := none }

/-- All workers but the newest have ended; its place tells which tasks are executed, and out of
the loop it has emptied `_tasks`. -/
structure LivesInv (s : CellTaskServer τ) : Prop where
  older : ∀ (i : ℕ) (pc : WorkerPc TaskPc), s.thread.workers[i]? = some pc →
    i + 1 < s.thread.workers.length → pc = .ended
  newest : ∀ (i : ℕ) (pc : WorkerPc TaskPc), s.thread.workers[i]? = some pc →
    i + 1 = s.thread.workers.length → s.unclosed.Ordered pc ∧ (¬ Loops pc → s.tasks = [])
  unstarted : s.thread.workers = [] → s.tasks = [] ∧ s.executed ++ s.tasksBuf = s.added

theorem livesInv_new : (new : CellTaskServer τ).LivesInv where
  older _ _ h := by cases h
  newest _ _ h := by cases h
  unstarted _ := ⟨rfl, rfl⟩

/-- A worker out of the loop leaves `_tasks` alone, and one that leaves it finds it empty. -/
theorem tasks_of_works {pc pc' : WorkerPc TaskPc} {b : Bool} {sem : CellSemaphore}
    (ho : s.unclosed.Ordered pc) (hl : ¬ Loops pc → s.tasks = [])
    (hw : Works s.onRun s.thread pc () pc' b sem) : ¬ Loops pc' → (s.lists pc).tasks = [] := by
  intro hn
  cases hw with
  | create => exact absurd trivial hn
  | @goto r r' k hs =>
      cases r with
      | test => exact ho.1
      | sweep | callBuf => exact hl id
      | drain | call | clear =>
          obtain rfl := RunStep.goto.inj hs
          exact absurd trivial hn
      | testBuf | testTasks | exec =>
          simp only [onRun, loop] at hs
          split at hs
          · obtain rfl := RunStep.goto.inj hs
            exact absurd trivial hn
          · obtain rfl := RunStep.goto.inj hs
            exact absurd trivial hn
  | callExit hs => exact absurd hs no_exit
  | @ret r k hs =>
      cases r with
      | test | testBuf | testTasks | exec =>
          simp only [onRun, loop] at hs
          split at hs
          · cases hs
          · cases hs
      | drain | call | clear | callBuf => cases hs
      | sweep => exact hl id
  | exit => cases ho
  | destroy | wake | clear => exact hl id

theorem unclosed_lists (s : CellTaskServer τ) (pc : WorkerPc TaskPc) (t : CellThread TaskPc) :
    ({ s.lists pc with thread := t } : CellTaskServer τ).unclosed =
      { s.unclosed.lists pc with thread := t } := by
  unfold lists
  split <;> rfl

/-- Where a thread stands does not matter to the order of the tasks. -/
theorem Ordered.with_thread {pc : WorkerPc TaskPc} (h : s.Ordered pc) (t : CellThread TaskPc) :
    ({ s with thread := t } : CellTaskServer τ).Ordered pc := by
  cases pc with
  | running r => cases r <;> exact h
  | created | exiting | destroying | waking | clearing | ended => exact h

namespace LivesInv

theorem addTask (h : s.LivesInv) (task : τ) : (s.addTask task).LivesInv where
  older := h.older
  newest i pc hpc hi := by
    obtain ⟨ho, ht⟩ := h.newest i pc hpc hi
    exact ⟨ho.addTask task, ht⟩
  unstarted hw := by
    obtain ⟨ht, he⟩ := h.unstarted hw
    refine ⟨ht, ?_⟩
    show s.executed ++ (s.tasksBuf ++ [task]) = s.added ++ [task]
    rw [← he, List.append_assoc]

/-- The calls of the owner do not move a worker. -/
theorem with_thread (h : s.LivesInv) {t : CellThread TaskPc}
    (hw : t.workers = s.thread.workers) (n : Option ℕ) :
    ({ s with thread := t, closedAt := n } : CellTaskServer τ).LivesInv where
  older i pc hpc hi := by
    rw [hw] at hpc hi
    exact h.older i pc hpc hi
  newest i pc hpc hi := by
    rw [hw] at hpc hi
    obtain ⟨ho, ht⟩ := h.newest i pc hpc hi
    exact ⟨ho.with_thread t, ht⟩
  unstarted hn := h.unstarted (hw.symm.trans hn)

/-- Without a worker nothing has begun; otherwise the newest one tells what is executed. -/
theorem latest (h : s.LivesInv) :
    s.tasks = [] ∧ s.executed ++ s.tasksBuf = s.added ∨
      ∃ pc ∈ s.thread.workers, s.unclosed.Ordered pc ∧ (¬ Loops pc → s.tasks = []) := by
  cases hw : s.thread.workers.getLast? with
  | none => exact .inl (h.unstarted (List.getLast?_eq_none_iff.mp hw))
  | some pc =>
      have hpc : s.thread.workers[s.thread.workers.length - 1]? = some pc := by
        rw [← hw, List.getLast?_eq_getElem?]
      have hlen := (List.getElem?_eq_some_iff.mp hpc).1
      exact .inr ⟨pc, List.mem_of_getElem? hpc, h.newest _ _ hpc (by omega)⟩

theorem isPrefix (h : s.LivesInv) : s.executed <+: s.added := by
  rcases h.latest with hn | ⟨pc, -, ho, -⟩
  · exact ⟨_, hn.2⟩
  · exact ho.isPrefix

/-- With all workers ended, `_tasks` is empty. -/
theorem tasks_eq_nil (h : s.LivesInv) (he : ∀ pc ∈ s.thread.workers, pc = .ended) :
    s.tasks = [] := by
  rcases h.latest with hn | ⟨pc, hpc, -, ht⟩
  · exact hn.1
  · obtain rfl := he pc hpc
    exact ht id

theorem start (h : s.LivesInv) (he : ∀ pc ∈ s.thread.workers, pc = .ended)
    (hf : s.tasksBuf = s.added.drop s.executed.length) :
    ({ s with thread := { s.thread with
        isRun := true, workers := s.thread.workers ++ [.created] } } :
      CellTaskServer τ).LivesInv := by
  have ht := h.tasks_eq_nil he
  have hx : s.executed ++ s.tasksBuf = s.added := by
    obtain ⟨ys, hys⟩ := h.isPrefix
    rw [hf, ← hys, List.drop_left]
  constructor
  · intro i pc hpc hi
    have hlt : i < s.thread.workers.length := by simpa using hi
    rw [List.getElem?_append_left hlt] at hpc
    exact he pc (List.mem_of_getElem? hpc)
  · intro i pc hpc hi
    have hlen : i = s.thread.workers.length := by simpa using hi
    rw [hlen, List.getElem?_concat_length] at hpc
    obtain rfl := Option.some.inj hpc
    exact ⟨⟨ht, hx⟩, fun hn => absurd trivial hn⟩
  · intro hn
    simp at hn

theorem work (h : s.LivesInv) {i : ℕ} {pc pc' : WorkerPc TaskPc} {b : Bool} {sem : CellSemaphore}
    (hpc : s.thread.workers[i]? = some pc) (hw : Works s.onRun s.thread pc () pc' b sem) :
    ({ s.lists pc with thread :=
      { s.thread with isRun := b, sem := sem, workers := s.thread.workers.set i pc' } } :
      CellTaskServer τ).LivesInv := by
  have hlt := (List.getElem?_eq_some_iff.mp hpc).1
  -- a worker that has ended takes no step
  have hi : i + 1 = s.thread.workers.length := by
    by_contra hne
    obtain rfl := h.older i pc hpc (by omega)
    cases hw
  obtain ⟨ho, ht⟩ := h.newest i pc hpc hi
  constructor
  · intro j qc hqc hj
    rw [List.length_set] at hj
    rcases getElem?_set_cases hqc with hj' | hj'
    · omega
    · exact h.older j qc hj'.2 hj
  · intro j qc hqc hj
    rw [List.length_set] at hj
    have hji : j = i := by omega
    rcases getElem?_set_cases hqc with hj' | hj'
    · obtain rfl := hj'.2
      constructor
      · rw [unclosed_lists]
        exact (ho.work (fun n hn => by cases hn) hw).with_thread _
      · exact tasks_of_works ho ht hw
    · exact absurd hji hj'.1
  · intro hn
    rw [List.set_eq_nil_iff] at hn
    rw [hn] at hlt
    exact absurd hlt (Nat.not_lt_zero i)

theorem step (h : s.LivesInv) {e : TaskEvent τ} (hr : s.Restarts e) (hf : s.Fresh e)
    (hs : CellTaskServer.Steps s e s') : s'.LivesInv := by
  cases hs with
  | addTask => exact h.addTask _
  | start ht =>
      cases ht with
      | start _ hb => exact h.start (hr hb) (hf hb)
      | startAgain => exact h
  | close ht =>
      apply h.with_thread
      cases ht with
      | close | closeAgain => rfl
  | semWait ht =>
      apply h.with_thread
      cases ht with
      | waitReturn | waitBlock => rfl
  | semRetest ht =>
      apply h.with_thread
      cases ht with
      | retestReturn | retestBlock => rfl
  | work hpc hw => exact h.work hpc hw

end LivesInv

/-- The runs in which a `Start` waits for the end of every earlier worker. -/
def lives (τ : Type*) : System (CellTaskServer τ) (TaskEvent τ) := (system τ).guard Restarts

theorem livesInvariant : ((lives τ).guard Fresh).Invariant LivesInv where
  init s hs := by
    obtain rfl := hs
    exact livesInv_new
  step _ _ _ h hs := h.step hs.2.1 hs.1 (steps_of_next hs.2.2)

/-- Over all lives every task is executed at most once, if no new worker finds a task in
`_tasksBuf` that the sweep before it has executed. -/
theorem executed_at_most_once (h : ((lives τ).guard Fresh).Reachable s) : s.AtMostOnce :=
  (livesInvariant.reachable h).isPrefix.sublist.subperm

instance [DecidableEq τ] (s : CellTaskServer τ) (e : TaskEvent τ) : Decidable (s.Restarts e) := by
  cases e <;> unfold Restarts <;> infer_instance

instance [DecidableEq τ] (s : CellTaskServer τ) (e : TaskEvent τ) : Decidable (s.Fresh e) := by
  cases e <;> unfold Fresh <;> infer_instance

/-- A life without a task, and a second one in which a task is executed. -/
def secondLife : CellTaskServer ℕ :=
  ⟨[7], [], ⟨true, ⟨0, 0⟩, .idle, [.ended, .running (.call 0)]⟩, [7], [7], some 0⟩

theorem reachable_secondLife : ((lives ℕ).guard Fresh).Reachable secondLife := by
  refine ⟨new, [.start, .work 0, .close, .work 0, .work 0, .work 0, .work 0, .semWait, .work 0,
    .addTask 7, .start, .work 1, .work 1, .work 1, .work 1, .work 1, .work 1], rfl, ?_⟩
  apply System.Path.of_next fun s e => if s.Fresh e ∧ s.Restarts e then s.next e else none
  · intro s e t h
    split at h
    · next hok => exact ⟨hok.1, hok.2, h⟩
    · cases h
  · rfl

theorem executed_at_most_once_secondLife : secondLife.AtMostOnce :=
  executed_at_most_once reachable_secondLife

/-- A task that was swept up in the first life, and begun in the second. -/
def sweptTwice : CellTaskServer ℕ :=
  ⟨[7], [], ⟨true, ⟨0, 0⟩, .idle, [.ended, .running (.call 0)]⟩, [7], [7, 7], some 1⟩

/-- The task that the sweep executed is executed again. -/
theorem executed_again : (lives ℕ).Reachable sweptTwice ∧ ¬ sweptTwice.AtMostOnce := by
  constructor
  · refine ⟨new, [.addTask 7, .start, .work 0, .close, .work 0, .work 0, .work 0, .work 0,
      .work 0, .work 0, .semWait, .work 0, .start, .work 1, .work 1, .work 1, .work 1, .work 1,
      .work 1], rfl, ?_⟩
    apply System.Path.of_next fun s e => if s.Restarts e then s.next e else none
    · intro s e t h
      split at h
      · next hok => exact ⟨hok, h⟩
      · cases h
    · rfl
  · intro h
    exact absurd h.length_le (by decide)

end CellTaskServer

end CellNet
