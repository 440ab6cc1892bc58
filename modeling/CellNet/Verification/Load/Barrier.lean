import CellNet.Verification.Load.Semantics

/-! No thread of the test client sends before all of them have done with their connections, in
whatever order the threads, `main` and the user take their steps. -/

namespace CellNet

open Library

/-- Whether a thread has done with its connections. -/
def WorkPc.passed : WorkPc → Bool
  | .creating _ | .connecting _ | .opening _ | .connected _ | .ready => false
  | _ => true

/-- What a thread has in `readyCount`. -/
def WorkPc.inside : WorkPc → ℕ
  | .creating _ | .connecting _ | .opening _ | .connected _ | .ready | .finished => 0
  | _ => 1

/-- Whether a thread is in the body of its main loop. -/
def WorkPc.working : WorkPc → Bool
  | .sending _ _ | .sent _ _ | .running _ | .dropped _ => true
  | _ => false

theorem WorkPc.inside_le (pc : WorkPc) : pc.inside ≤ 1 := by
  cases pc <;> simp [inside]

theorem WorkPc.passed_of_inside {pc : WorkPc} (h : pc.inside = 1) : pc.passed = true := by
  cases pc with
  | creating | connecting | opening | connected | ready | finished => cases h
  | _ => rfl

namespace WorkThread

variable {cfg : LoadConfig} {k k' : Counters} {t t' : WorkThread} {a : WorkAnswer} {o : Prop}

theorem Worked.isRun (h : Worked cfg k t a k' t') : t'.isRun = t.isRun := by
  cases h <;> rfl

/-- The shared counter counts the thread. -/
theorem Worked.inside (h : Worked cfg k t a k' t') (hk : wrap32 k.readyCount = k.readyCount) :
    k'.readyCount = wrap32 (k.readyCount + t'.pc.inside - t.pc.inside) := by
  cases h with
  | goes hpc hg => cases hg <;> simp [hpc, hk, WorkPc.inside]
  | creates hpc | fails hpc | opens hpc | connects hpc | readies hpc | begins hpc | sends hpc
  | refuses hpc | counts hpc | runs hpc | drops hpc | forgets hpc | closes hpc | quits hpc =>
      simp [hpc, hk, WorkPc.inside]

theorem Worked.passed (h : Worked cfg k t a k' t') (hp : t.pc.passed = true) :
    t'.pc.passed = true := by
  cases h with
  | goes hpc hg =>
      rw [hpc] at hp
      cases hg <;> first | rfl | cases hp
  | creates hpc | fails hpc | opens hpc | connects hpc =>
      rw [hpc] at hp
      cases hp
  | _ => rfl

/-- A thread that works, or is about to, has seen that all are ready. -/
structure Gate (o : Prop) (t : WorkThread) : Prop where
  working : t.pc.working = true → o
  loop : t.pc = .loop → t.isRun = true → o

theorem Gate.mono {p : Prop} (h : t.Gate o) (hp : o → p) : t.Gate p :=
  ⟨fun hw => hp (h.working hw), fun hl hr => hp (h.loop hl hr)⟩

/-- A thread gets into its main loop through the test of `readyCount`, or has been stopped. -/
theorem Gate.worked (hg : t.Gate o) (h : Worked cfg k t a k' t')
    (hready : (cfg.nThread : ℤ) ≤ k.readyCount → o) : t'.Gate o := by
  cases h with
  | goes hpc hgo =>
      have hworking := hg.working
      rw [hpc] at hworking
      cases hgo with
      | all hn => exact ⟨fun _ => hready hn, fun _ _ => hready hn⟩
      | stopped hr =>
          refine ⟨nofun, fun _ hrun => ?_⟩
          rw [isRun_goto, hr] at hrun
          cases hrun
      | skipSend | round | sent | skipRun | worked =>
          exact ⟨fun _ => hworking rfl, fun _ _ => hworking rfl⟩
      | _ => exact ⟨nofun, nofun⟩
  | begins hpc hrun => exact ⟨fun _ => hg.loop hpc hrun, nofun⟩
  | sends hpc | refuses hpc | counts hpc | runs hpc | drops hpc | forgets hpc =>
      have hworking := hg.working
      rw [hpc] at hworking
      exact ⟨fun _ => hworking rfl, nofun⟩
  | _ => exact ⟨nofun, nofun⟩

end WorkThread

namespace LoadTest

variable {cfg : LoadConfig} {s s' : LoadTest}

/-- All threads have been started, and have done with their connections. -/
structure Open (cfg : LoadConfig) (s : LoadTest) : Prop where
  all : s.threads.length = cfg.nThread
  passed : ∀ t ∈ s.threads, t.pc.passed = true

structure BarrierOk (cfg : LoadConfig) (s : LoadTest) : Prop where
  size : s.threads.length ≤ cfg.nThread
  count : s.counters.readyCount = (s.threads.map fun t => t.pc.inside).sum
  gate : ∀ t ∈ s.threads, t.Gate (s.Open cfg)

/-- It does not wrap around. -/
theorem BarrierOk.count_le (h : s.BarrierOk cfg) : s.counters.readyCount ≤ 2147483647 := by
  have hsize := h.size
  have hcount := h.count
  have hthreads := cfg.nThread_le
  have hle := sum_map_le_length (fun t : WorkThread => t.pc.inside_le) s.threads
  omega

/-- The counter reaches its limit only with all threads. -/
theorem BarrierOk.open (h : s.BarrierOk cfg) (hn : (cfg.nThread : ℤ) ≤ s.counters.readyCount) :
    s.Open cfg := by
  have hsize := h.size
  have hcount := h.count
  have hsum : s.threads.length ≤ (s.threads.map fun t => t.pc.inside).sum := by omega
  have hle := sum_map_le_length (fun t : WorkThread => t.pc.inside_le) s.threads
  refine ⟨by omega, fun t ht => WorkPc.passed_of_inside ?_⟩
  exact eq_one_of_length_le_sum (fun t : WorkThread => t.pc.inside_le) hsum t ht

theorem BarrierOk.work (h : s.BarrierOk cfg) {i : ℕ} {t t' : WorkThread} {a : WorkAnswer}
    {k' : Counters} (ht : s.threads[i]? = some t)
    (hw : WorkThread.Worked cfg s.counters t a k' t') :
    BarrierOk cfg { s with counters := k', threads := s.threads.set i t' } := by
  have hmem := List.mem_of_getElem? ht
  have hopen : s.Open cfg → Open cfg { s with counters := k', threads := s.threads.set i t' } := by
    intro ho
    refine ⟨by simpa using ho.all, fun u hu => ?_⟩
    rcases List.mem_or_eq_of_mem_set hu with hu | rfl
    · exact ho.passed u hu
    · exact hw.passed (ho.passed t hmem)
  refine ⟨by simpa using h.size, ?_, ?_⟩
  · have hsum := sum_map_set ht (fun t => t.pc.inside) t'
    have hcount := h.count
    have hold := h.count_le
    have hone := hw.inside (wrap32_eq (by omega) hold)
    have hle := sum_map_le_length (fun t : WorkThread => t.pc.inside_le) (s.threads.set i t')
    rw [List.length_set] at hle
    have hsize := h.size
    have hthreads := cfg.nThread_le
    dsimp only at hsum hle ⊢
    rw [hone, wrap32_eq (by omega) (by omega)]
    omega
  · intro u hu
    rcases List.mem_or_eq_of_mem_set hu with hu | rfl
    · exact (h.gate u hu).mono hopen
    · exact ((h.gate t hmem).worked hw h.open).mono hopen

/-- Only the threads and `readyCount` matter. -/
theorem BarrierOk.congr (h : s.BarrierOk cfg) (ht : s'.threads = s.threads)
    (hc : s'.counters.readyCount = s.counters.readyCount) : s'.BarrierOk cfg where
  size := ht ▸ h.size
  count := by rw [hc, ht, h.count]
  gate t hm := (h.gate t (ht ▸ hm)).mono fun ho => ⟨ht ▸ ho.all, ht ▸ ho.passed⟩

/-- A thread that is started is new, and one that is told to stop does not move. -/
theorem BarrierOk.mained (h : s.BarrierOk cfg) (hm : s.Mained cfg s') : s'.BarrierOk cfg := by
  cases hm with
  | starts _ hlt =>
      refine ⟨?_, ?_, ?_⟩
      · simp only [List.length_append, List.length_singleton]
        omega
      · have hcount := h.count
        simpa [WorkThread.start, WorkPc.inside] using hcount
      · intro u hu
        rcases List.mem_append.mp hu with hu | hu
        · exact (h.gate u hu).mono fun ho => absurd ho.all hlt.ne
        · obtain rfl := List.mem_singleton.mp hu
          exact ⟨nofun, nofun⟩
  | @stops n t _ ht =>
      have hmem := List.mem_of_getElem? ht
      have hopen : s.Open cfg → Open cfg { s with
          threads := s.threads.set n { t with isRun := false }
          main := .joining n } := by
        intro ho
        refine ⟨by simpa using ho.all, fun u hu => ?_⟩
        rcases List.mem_or_eq_of_mem_set hu with hu | rfl
        · exact ho.passed u hu
        · exact ho.passed t hmem
      refine ⟨by simpa using h.size, ?_, ?_⟩
      · have hsum := sum_map_set ht (fun t => t.pc.inside) { t with isRun := false }
        have hcount := h.count
        dsimp only at hsum ⊢
        omega
      · intro u hu
        rcases List.mem_or_eq_of_mem_set hu with hu | rfl
        · exact (h.gate u hu).mono hopen
        · refine ⟨fun hw => hopen ((h.gate t hmem).working hw), fun _ hrun => ?_⟩
          cases hrun
  | _ => exact h.congr rfl rfl

theorem barrier_invariant (cfg : LoadConfig) : (system cfg).Invariant (BarrierOk cfg) where
  init := by
    rintro s rfl
    exact ⟨Nat.zero_le _, rfl, by simp [new]⟩
  step s e s' h hs := by
    cases e with
    | command =>
        obtain rfl := Option.some.inj hs
        exact h.congr rfl rfl
    | main t => exact h.mained (mained_of_stepMain hs)
    | work i a =>
        obtain ⟨t, k', t', ht, hw, rfl⟩ := worked_of_next hs
        exact h.work ht hw

/-- In every order of the steps: `readyCount` is the number of the threads between its two changes,
and a thread that sends or receives has all `nThread` threads behind their connections. -/
theorem sends_after_all (h : (system cfg).Reachable s) :
    s.counters.readyCount = (s.threads.map fun t => t.pc.inside).sum ∧
      ((∃ t ∈ s.threads, t.pc.working = true) →
        s.threads.length = cfg.nThread ∧ ∀ t ∈ s.threads, t.pc.passed = true) := by
  have hok := (barrier_invariant cfg).reachable h
  refine ⟨hok.count, ?_⟩
  rintro ⟨t, ht, hw⟩
  have hopen := (hok.gate t ht).working hw
  exact ⟨hopen.all, hopen.passed⟩

/-- Two threads with one client each. -/
def pair : LoadConfig where
  nMsg := 1
  nSendSleep := 1
  bCheckSendBack := true
  nThread := 2
  nClient := 1
  hasKey := true
  login := ⟨List.replicate 92 0, rfl⟩
  nThread_le := by decide

/-- A socket with buffers of 100 bytes that is connected, and nothing to read or to write. -/
def calm : WorkAnswer where
  socket := ⟨1, 5, .new 100 (.replicate 100 0), .new 100 (.replicate 100 0), 3, true⟩
  connect := 0
  dt := 1
  run := .timeout

def play (cfg : LoadConfig) (es : List LoadEvent) : Option LoadTest := es.foldlM (next cfg) new

theorem reachable_of_play {es : List LoadEvent} (h : play cfg es = some s) :
    (system cfg).Reachable s :=
  ⟨new, es, rfl, .of_next (next cfg) (fun _ _ _ hs => hs) h⟩

/-- Both threads are connected, and the first one has passed the test. -/
def gathering : List LoadEvent :=
  List.replicate 3 (.main 0) ++ List.replicate 7 (.work 0 calm) ++
    List.replicate 7 (.work 1 calm) ++ List.replicate 2 (.work 0 calm)

theorem sends_after_all_gathering : ∃ s, play pair gathering = some s ∧
    s.threads.map (fun t => t.pc) = [.sending 0 0, .waiting] ∧
    s.counters.readyCount = (s.threads.map fun t => t.pc.inside).sum ∧
      ((∃ t ∈ s.threads, t.pc.working = true) →
        s.threads.length = pair.nThread ∧ ∀ t ∈ s.threads, t.pc.passed = true) := by
  have hplay : (play pair gathering).map (fun s => s.threads.map fun t => t.pc) =
      some [.sending 0 0, .waiting] := by decide +kernel
  obtain ⟨s, hs, hpcs⟩ := Option.map_eq_some_iff.mp hplay
  exact ⟨s, hs, hpcs, sends_after_all (reachable_of_play hs)⟩

end LoadTest

end CellNet
