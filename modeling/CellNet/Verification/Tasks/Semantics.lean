import CellNet.Model.CellTask
import CellNet.Verification.Thread.Close

/-! What a step of the task server does to the order of its tasks. -/

namespace CellNet

open Library CellThread

namespace CellTaskServer

variable {τ : Type*} {s s' : CellTaskServer τ}

/-- Everything a step can do. -/
inductive Steps (s : CellTaskServer τ) : TaskEvent τ → CellTaskServer τ → Prop where
  | addTask {task} : Steps s (.addTask task) (s.addTask task)
  | start {t} : CellThread.Steps s.onRun s.thread .start t → Steps s .start { s with thread := t }
  | close {t} : CellThread.Steps s.onRun s.thread .close t →
      Steps s .close { s with thread := t, closedAt := some s.added.length }
  | semWait {t} : CellThread.Steps s.onRun s.thread .semWait t →
      Steps s .semWait { s with thread := t }
  | semRetest {t} : CellThread.Steps s.onRun s.thread .semRetest t →
      Steps s .semRetest { s with thread := t }
  | work {i pc pc' b sem} : s.thread.workers[i]? = some pc →
      Works s.onRun s.thread pc () pc' b sem →
      Steps s (.work i) { s.lists pc with thread :=
        { s.thread with isRun := b, sem := sem, workers := s.thread.workers.set i pc' } }

theorem steps_of_next {e : TaskEvent τ} (h : s.next e = some s') : Steps s e s' := by
  cases e with
  | addTask task =>
      obtain rfl := Option.some.inj h
      exact .addTask
  | start =>
      obtain ⟨t, ht, rfl⟩ := Option.map_eq_some_iff.mp h
      exact .start (next_eq_some_iff.mp ht)
  | close =>
      obtain ⟨t, ht, rfl⟩ := Option.map_eq_some_iff.mp h
      exact .close (next_eq_some_iff.mp ht)
  | semWait =>
      obtain ⟨t, ht, rfl⟩ := Option.map_eq_some_iff.mp h
      exact .semWait (next_eq_some_iff.mp ht)
  | semRetest =>
      obtain ⟨t, ht, rfl⟩ := Option.map_eq_some_iff.mp h
      exact .semRetest (next_eq_some_iff.mp ht)
  | work i =>
      obtain ⟨pc, hpc, h⟩ := Option.bind_eq_some_iff.mp h
      obtain ⟨t, ht, rfl⟩ := Option.map_eq_some_iff.mp h
      obtain ⟨qc, pc', b, sem, hqc, hw, rfl⟩ := work_cases ht
      obtain rfl := Option.some.inj (hpc.symm.trans hqc)
      exact .work hpc hw

theorem lists_added (s : CellTaskServer τ) (pc : WorkerPc TaskPc) :
    (s.lists pc).added = s.added := by
  unfold lists
  split <;> rfl

theorem lists_closedAt (s : CellTaskServer τ) (pc : WorkerPc TaskPc) :
    (s.lists pc).closedAt = s.closedAt := by
  unfold lists
  split <;> rfl

/-- The tasks executed, then those not yet executed as the place of the worker tells them, are
the tasks added. Once the worker has left `OnRun`, some may be left over, but none of those
added before `Close`. -/
def Ordered (s : CellTaskServer τ) : WorkerPc TaskPc → Prop
  | .created | .running .test | .running .testBuf | .running .drain =>
      s.tasks = [] ∧ s.executed ++ s.tasksBuf = s.added
  | .running .testTasks => s.executed ++ (s.tasks ++ s.tasksBuf) = s.added
  | .running (.exec i) => s.executed ++ (s.tasks.drop i ++ s.tasksBuf) = s.added
  | .running (.call i) => s.executed ++ (s.tasks.drop (i + 1) ++ s.tasksBuf) = s.added
  | .running .clear => s.executed ++ s.tasksBuf = s.added
  | .running (.sweep i) => i ≤ s.tasksBuf.length ∧ s.executed ++ s.tasksBuf.drop i = s.added
  | .running (.callBuf i) =>
      i + 1 ≤ s.tasksBuf.length ∧ s.executed ++ s.tasksBuf.drop (i + 1) = s.added
  | .exiting _ => False
  | .destroying | .waking | .clearing | .ended =>
      s.executed <+: s.added ∧ ∀ n, s.closedAt = some n → n ≤ s.executed.length

/-- `OnRun` does not call `Exit`. -/
theorem no_exit {r r' : TaskPc} {b : Bool} : s.onRun.step b r () ≠ .exit r' := by
  intro h
  cases r with
  | test | testBuf | testTasks | exec | sweep =>
      simp only [onRun, loop] at h
      split at h
      · cases h
      · cases h
  | drain | call | clear | callBuf => cases h

/-- The worker has not left the loop. -/
def Loops : WorkerPc TaskPc → Prop
  | .created => True
  | .running (.sweep _) | .running (.callBuf _) => False
  | .running _ => True
  | _ => False

namespace Ordered

variable {pc pc' : WorkerPc TaskPc}

theorem isPrefix (h : s.Ordered pc) : s.executed <+: s.added := by
  cases pc with
  | created => exact ⟨_, h.2⟩
  | running r =>
      cases r with
      | test | testBuf | drain | sweep | callBuf => exact ⟨_, h.2⟩
      | testTasks | exec | call | clear => exact ⟨_, h⟩
  | exiting r => cases h
  | destroying | waking | clearing | ended => exact h.1

theorem addTask (h : s.Ordered pc) (task : τ) : (s.addTask task).Ordered pc := by
  have ha : ∀ {xs : List τ}, s.executed ++ xs = s.added →
      s.executed ++ (xs ++ [task]) = s.added ++ [task] := by
    intro xs hx
    rw [← hx, List.append_assoc]
  cases pc with
  | created => exact ⟨h.1, ha h.2⟩
  | running r =>
      cases r with
      | test | testBuf | drain => exact ⟨h.1, ha h.2⟩
      | testTasks | exec | call =>
          have hx := ha h
          rw [List.append_assoc _ s.tasksBuf] at hx
          exact hx
      | clear => exact ha h
      | sweep i =>
          have hx := ha h.2
          rw [← List.drop_append_of_le_length h.1] at hx
          exact ⟨Nat.le_trans h.1 (by simp [CellTaskServer.addTask]), hx⟩
      | callBuf i =>
          have hx := ha h.2
          rw [← List.drop_append_of_le_length h.1] at hx
          exact ⟨Nat.le_trans h.1 (by simp [CellTaskServer.addTask]), hx⟩
  | exiting r => cases h
  | destroying | waking | clearing | ended =>
      exact ⟨h.1.trans (List.prefix_append _ _), h.2⟩

/-- Beginning the task in front of the rest. -/
theorem begin {executed xs ys added : List τ} {i : ℕ} (hi : i < xs.length)
    (h : executed ++ (xs.drop i ++ ys) = added) :
    executed ++ xs[i]?.toList ++ (xs.drop (i + 1) ++ ys) = added := by
  rw [List.drop_eq_getElem_cons hi] at h
  rw [List.getElem?_eq_getElem hi, Option.toList_some, List.append_assoc, ← h]
  rfl

/-- A step of the loop moves the tasks along. -/
theorem goto {r r' : TaskPc} (h : s.Ordered (.running r))
    (hs : s.onRun.step s.thread.isRun r () = .goto r') :
    (s.lists (.running r)).Ordered (.running r') := by
  cases r with
  | test =>
      simp only [onRun, loop] at hs
      split at hs
      · obtain rfl := RunStep.goto.inj hs
        exact h
      · obtain rfl := RunStep.goto.inj hs
        exact ⟨Nat.zero_le _, h.2⟩
  | testBuf =>
      simp only [onRun, loop] at hs
      split at hs
      · obtain rfl := RunStep.goto.inj hs
        exact h
      · obtain rfl := RunStep.goto.inj hs
        show s.executed ++ (s.tasks ++ s.tasksBuf) = s.added
        rw [h.1, List.nil_append]
        exact h.2
  | drain =>
      obtain rfl := RunStep.goto.inj hs
      show s.executed ++ (s.tasks ++ s.tasksBuf ++ []) = s.added
      rw [h.1, List.nil_append, List.append_nil]
      exact h.2
  | testTasks =>
      simp only [onRun, loop] at hs
      split at hs
      · next ht =>
          obtain rfl := RunStep.goto.inj hs
          have hn := List.length_eq_zero_iff.mp ht
          have hx : s.executed ++ (s.tasks ++ s.tasksBuf) = s.added := h
          rw [hn] at hx
          exact ⟨hn, hx⟩
      · obtain rfl := RunStep.goto.inj hs
        exact h
  | exec i =>
      simp only [onRun, loop] at hs
      split at hs
      · next hi =>
          obtain rfl := RunStep.goto.inj hs
          exact begin hi h
      · next hi =>
          obtain rfl := RunStep.goto.inj hs
          have hx : s.executed ++ (s.tasks.drop i ++ s.tasksBuf) = s.added := h
          rw [List.drop_of_length_le (by omega)] at hx
          show s.executed ++ s.tasks[i]?.toList ++ s.tasksBuf = s.added
          rw [List.getElem?_eq_none (by omega), Option.toList_none, List.append_nil]
          exact hx
  | call i =>
      obtain rfl := RunStep.goto.inj hs
      exact h
  | clear =>
      obtain rfl := RunStep.goto.inj hs
      exact ⟨rfl, h⟩
  | sweep i =>
      simp only [onRun, loop] at hs
      split at hs
      · next hi =>
          obtain rfl := RunStep.goto.inj hs
          have hx : s.executed ++ (s.tasksBuf.drop i ++ []) = s.added := by
            rw [List.append_nil]
            exact h.2
          have hb := begin hi hx
          rw [List.append_nil] at hb
          exact ⟨hi, hb⟩
      · cases hs
  | callBuf i =>
      obtain rfl := RunStep.goto.inj hs
      exact h

/-- The sweep ends when it has executed everything added so far. -/
theorem ret (hc : ∀ n, s.closedAt = some n → n ≤ s.added.length) {r : TaskPc}
    (h : s.Ordered (.running r)) (hs : s.onRun.step s.thread.isRun r () = .ret) :
    (s.lists (.running r)).Ordered .destroying := by
  cases r with
  | test | testBuf | testTasks | exec =>
      simp only [onRun, loop] at hs
      split at hs
      · cases hs
      · cases hs
  | drain | call | clear | callBuf => cases hs
  | sweep i =>
      simp only [onRun, loop] at hs
      split at hs
      · cases hs
      · next hi =>
          have hx := h.2
          rw [List.drop_of_length_le (by omega), List.append_nil] at hx
          have he : (s.lists (.running (.sweep i))).executed = s.added := by
            show s.executed ++ s.tasksBuf[i]?.toList = s.added
            rw [List.getElem?_eq_none (by omega), Option.toList_none, List.append_nil, hx]
          refine ⟨he ▸ List.prefix_rfl, ?_⟩
          rw [he]
          exact hc

theorem work (hc : ∀ n, s.closedAt = some n → n ≤ s.added.length) (h : s.Ordered pc) {b : Bool}
    {sem : CellSemaphore} (hw : Works s.onRun s.thread pc () pc' b sem) :
    (s.lists pc).Ordered pc' := by
  cases hw with
  | create => exact h
  | goto hs => exact h.goto hs
  | callExit hs => exact absurd hs no_exit
  | ret hs => exact h.ret hc hs
  | exit => cases h
  | destroy | wake | clear => exact h

end Ordered

end CellTaskServer

end CellNet
