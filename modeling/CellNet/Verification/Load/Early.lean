import CellNet.Verification.Load.Barrier

/-! `WorkThread` uses a null pointer exactly when it is told to stop before it has made its last
client. -/

namespace CellNet

open Library

namespace WorkThread

variable {cfg : LoadConfig} {k k' : Counters} {t t' : WorkThread} {a : WorkAnswer} {n j : ℕ}
  {e : Option (EasyTcpClient MyClient)} {pc : WorkPc}

/-- A client takes the place of another. -/
theorem client_put_isSome {c c' : EasyTcpClient MyClient} (h : t.client n = some c)
    (hj : (t.client j).isSome) : ((t.put n (some c') pc).client j).isSome := by
  by_cases hjn : j = n
  · rw [hjn, client_put_self (lt_of_client h)]
    rfl
  · rwa [client_put_ne hjn]

/-! ### Clients that were made -/

end WorkThread

/-- The clients that a thread uses from here on, or deletes: those from `first` up to `last`. -/
def WorkPc.first : WorkPc → ℕ
  | .closing n => n
  | _ => 0

def WorkPc.last (nClient : ℕ) : WorkPc → ℕ
  | .creating n => n
  | .leaving | .finished => 0
  | _ => nClient

namespace WorkThread

variable {cfg : LoadConfig} {k k' : Counters} {t t' : WorkThread} {a : WorkAnswer} {n j : ℕ}

/-- The thread has made its clients, or is still told to make them. -/
structure Made (cfg : LoadConfig) (t : WorkThread) : Prop where
  size : t.clients.length = cfg.nClient
  clients : ∀ j, t.pc.first ≤ j → j < t.pc.last cfg.nClient → (t.client j).isSome
  creating : ∀ n, t.pc = .creating n → n < cfg.nClient → t.isRun = true
  opening : ∀ n, t.pc = .opening n → n < cfg.nClient

theorem Made.goes {pc : WorkPc} (h : t.Made cfg) (hg : Goes cfg k t t.pc pc) :
    (t.goto pc).Made cfg := by
  obtain ⟨hsize, hclients, hcreating, -⟩ := h
  generalize t.pc = p at *
  cases hg with
  | @created n hrun =>
      refine ⟨hsize, fun j _ hj => hclients j (Nat.zero_le j) ?_, nofun, nofun⟩
      change j < n
      by_contra hn
      have hlt : n < cfg.nClient := lt_of_le_of_lt (not_lt.mp hn) hj
      rw [hcreating n rfl hlt] at hrun
      cases hrun hlt
  | @connecting n hn =>
      refine ⟨hsize, hclients, nofun, fun m hm => ?_⟩
      obtain rfl := WorkPc.opening.inj hm
      exact hn
  | closed => exact ⟨hsize, fun j _ hj => absurd hj (Nat.not_lt_zero j), nofun, nofun⟩
  | leaves => exact ⟨hsize, hclients, nofun, nofun⟩
  | _ => exact ⟨hsize, hclients, nofun, nofun⟩

/-- A client is changed, by a thread that has made all. -/
theorem Made.put {c c' : EasyTcpClient MyClient} {pc : WorkPc} (h : t.Made cfg)
    (hc : t.client n = some c) (hf : t.pc.first = 0) (hl : t.pc.last cfg.nClient = cfg.nClient)
    (hpc : pc.last cfg.nClient = cfg.nClient) (hcreating : ∀ n, pc ≠ .creating n)
    (hopening : ∀ n, pc ≠ .opening n) : (t.put n (some c') pc).Made cfg where
  size := by rw [length_put, h.size]
  clients j _ hj := by
    rw [pc_put, hpc] at hj
    exact client_put_isSome hc (h.clients j (hf ▸ Nat.zero_le j) (hl.symm ▸ hj))
  creating m hm := absurd hm (hcreating m)
  opening m hm := absurd hm (hopening m)

theorem Made.worked (h : t.Made cfg) (hw : Worked cfg k t a k' t') : t'.Made cfg := by
  cases hw with
  | goes hpc hg => exact h.goes (hpc ▸ hg)
  | @creates n hpc hn hrun =>
      have hlen : n < t.clients.length := h.size.symm ▸ hn
      refine ⟨by rw [length_put, h.size], fun j _ hj => ?_, fun _ _ _ => hrun, nofun⟩
      rcases Nat.lt_succ_iff_lt_or_eq.mp hj with hj | rfl
      · rw [client_put_ne hj.ne]
        refine h.clients j ?_ ?_
        · rw [hpc]
          exact Nat.zero_le j
        · rw [hpc]
          exact hj
      · rw [client_put_self hlen]
        rfl
  | fails hpc hc => exact h.put hc (by rw [hpc]; rfl) (by rw [hpc]; rfl) rfl nofun nofun
  | opens hpc hc => exact h.put hc (by rw [hpc]; rfl) (by rw [hpc]; rfl) rfl nofun nofun
  | sends hpc hc => exact h.put hc (by rw [hpc]; rfl) (by rw [hpc]; rfl) rfl nofun nofun
  | refuses hpc hc => exact h.put hc (by rw [hpc]; rfl) (by rw [hpc]; rfl) rfl nofun nofun
  | runs hpc hc => exact h.put hc (by rw [hpc]; rfl) (by rw [hpc]; rfl) rfl nofun nofun
  | drops hpc hc => exact h.put hc (by rw [hpc]; rfl) (by rw [hpc]; rfl) rfl nofun nofun
  | connects hpc | readies hpc | begins hpc | counts hpc | forgets hpc =>
      refine ⟨h.size, fun j _ hj => h.clients j ?_ ?_, nofun, nofun⟩
      · rw [hpc]
        exact Nat.zero_le j
      · rw [hpc]
        exact hj
  | @closes n e hpc hn hc =>
      refine ⟨by rw [length_put, h.size], fun j hf hj => ?_, nofun, nofun⟩
      have hle : n + 1 ≤ j := hf
      rw [client_put_ne (by omega)]
      refine h.clients j ?_ ?_
      · rw [hpc]
        exact Nat.le_of_succ_le hle
      · rw [hpc]
        exact hj
  | quits => exact ⟨h.size, fun j _ hj => absurd hj (Nat.not_lt_zero j), nofun, nofun⟩

/-- The calls on the client that comes next are defined. -/
structure Safe (cfg : LoadConfig) (t : WorkThread) (a : WorkAnswer) : Prop where
  sending : ∀ m n e, t.pc = .sending m n → t.client n = some e →
    (MyClient.sendTest cfg.toClientConfig e cfg.login.val).isSome
  running : ∀ n e, t.pc = .running n → t.client n = some e → (MyClient.onRun e a.run).isSome

/-- A thread with its clients takes every step. -/
theorem Made.step (h : t.Made cfg) (hf : t.pc ≠ .finished) (hs : t.Safe cfg a) (k : Counters) :
    (t.step cfg k a).isSome := by
  obtain ⟨-, hclients, -, hopening⟩ := h
  obtain ⟨hsending, hrunning⟩ := hs
  rw [WorkThread.step]
  split
  · split <;> rfl
  · rfl
  · next n hpc =>
      rw [hpc] at hclients
      obtain ⟨e, he⟩ := Option.isSome_iff_exists.mp
        (hclients n (Nat.zero_le n) (hopening n hpc))
      simp [opens, he]
  · rfl
  · rfl
  · rfl
  · rfl
  · rfl
  · next m n hpc =>
      rw [hpc] at hclients
      split
      · split
        · next hn =>
            obtain ⟨e, he⟩ := Option.isSome_iff_exists.mp (hclients n (Nat.zero_le n) hn)
            obtain ⟨r, hr⟩ := Option.isSome_iff_exists.mp (hsending m n e hpc he)
            rw [sends, he, Option.bind_eq_bind, Option.bind_some]
            split
            · simp [hr]
            · rfl
        · rfl
      · rfl
  · rfl
  · next n hpc =>
      rw [hpc] at hclients
      split
      · next hn =>
          obtain ⟨e, he⟩ := Option.isSome_iff_exists.mp (hclients n (Nat.zero_le n) hn)
          obtain ⟨r, hr⟩ := Option.isSome_iff_exists.mp (hrunning n e hpc he)
          rw [runs, he, Option.bind_eq_bind, Option.bind_some]
          split
          · rw [hr, Option.bind_eq_bind, Option.bind_some]
            split <;> rfl
          · rfl
      · rfl
  · rfl
  · next n hpc =>
      rw [hpc] at hclients
      split
      · next hn =>
          obtain ⟨e, he⟩ := Option.isSome_iff_exists.mp (hclients n le_rfl hn)
          simp [closes, he]
      · rfl
  · rfl
  · next hpc => exact absurd hpc hf

/-! ### Clients that were not made -/

/-- While a thread makes its clients, those behind the next one are null. -/
structure Growing (cfg : LoadConfig) (t : WorkThread) : Prop where
  size : t.clients.length = cfg.nClient
  made : ∀ n, t.pc = .creating n → ∀ j < n, (t.client j).isSome
  null : ∀ n, t.pc = .creating n → ∀ j, n ≤ j → t.client j = none

theorem growing_start (cfg : LoadConfig) : (start cfg).Growing cfg where
  size := List.length_replicate
  made n hn j hj := by
    obtain rfl := WorkPc.creating.inj hn
    cases hj
  null n _ j _ := by
    rw [client, start, List.getElem?_replicate]
    split <;> rfl

theorem Growing.worked (h : t.Growing cfg) (hw : Worked cfg k t a k' t') : t'.Growing cfg := by
  cases hw with
  | goes hpc hg =>
      refine ⟨h.size, ?_, ?_⟩
      · intro n hn
        rw [pc_goto] at hn
        subst hn
        cases hg
      · intro n hn
        rw [pc_goto] at hn
        subst hn
        cases hg
  | @creates n hpc hn _ =>
      have hlen : n < t.clients.length := h.size.symm ▸ hn
      refine ⟨by rw [length_put, h.size], ?_, ?_⟩
      · intro m hm j hj
        obtain rfl := WorkPc.creating.inj hm
        rcases Nat.lt_succ_iff_lt_or_eq.mp hj with hj | rfl
        · rw [client_put_ne hj.ne]
          exact h.made n hpc j hj
        · rw [client_put_self hlen]
          rfl
      · intro m hm j hj
        obtain rfl := WorkPc.creating.inj hm
        rw [client_put_ne (by omega)]
        exact h.null n hpc j (Nat.le_of_succ_le hj)
  | connects | readies | begins | counts | forgets | quits => exact ⟨h.size, nofun, nofun⟩
  | _ => exact ⟨by rw [length_put, h.size], nofun, nofun⟩

end WorkThread

/-- Where a thread can be that was stopped with `n` clients. -/
def WorkPc.Stuck (n : ℕ) : WorkPc → Prop
  | .creating m => m = n
  | .connecting _ | .ready | .waiting | .waitRun | .loop => True
  | .closing m => m ≤ n
  | _ => False

namespace WorkThread

variable {cfg : LoadConfig} {k k' : Counters} {t t' : WorkThread} {a : WorkAnswer} {n j : ℕ}

/-- The thread was stopped with `n` clients, which are fewer than it will delete. -/
structure Doomed (cfg : LoadConfig) (n : ℕ) (t : WorkThread) : Prop where
  isRun : t.isRun = false
  lt : n < cfg.nClient
  null : t.client n = none
  made : ∀ j < n, t.pc.first ≤ j → (t.client j).isSome
  stuck : t.pc.Stuck n

theorem Growing.doomed (h : t.Growing cfg) (hpc : t.pc = .creating n) (hr : t.isRun = false)
    (hn : n < cfg.nClient) : t.Doomed cfg n where
  isRun := hr
  lt := hn
  null := h.null n hpc n le_rfl
  made j hj _ := h.made n hpc j hj
  stuck := by
    rw [hpc]
    rfl

/-- Nothing takes it past the client that it has not. -/
theorem Doomed.worked (h : t.Doomed cfg n) (hw : Worked cfg k t a k' t') : t'.Doomed cfg n := by
  obtain ⟨hrun, hlt, hnull, hmade, hstuck⟩ := h
  cases hw with
  | goes hpc hg =>
      rw [hpc] at hmade hstuck
      cases hg with
      | connecting _ hr =>
          rw [hrun] at hr
          cases hr
      | leaves => exact ⟨hrun, hlt, hnull, hmade, Nat.zero_le n⟩
      | closed hle => exact absurd (lt_of_lt_of_le hlt hle) (not_lt.mpr hstuck)
      | skipSend | round | sent | skipRun | worked => cases hstuck
      | _ => exact ⟨hrun, hlt, hnull, hmade, trivial⟩
  | creates _ _ hr | begins _ hr =>
      rw [hrun] at hr
      cases hr
  | readies hpc =>
      rw [hpc] at hmade
      exact ⟨hrun, hlt, hnull, hmade, trivial⟩
  | @closes m e hpc hm hc =>
      rw [hpc] at hmade hstuck
      have hne : m ≠ n := by
        rintro rfl
        rw [hnull] at hc
        cases hc
      have hle : m ≤ n := hstuck
      refine ⟨hrun, hlt, ?_, ?_, Nat.lt_of_le_of_ne hle hne⟩
      · rw [client_put_ne (Ne.symm hne), hnull]
      · intro j hj hf
        have hmj : m + 1 ≤ j := hf
        rw [client_put_ne (by omega)]
        exact hmade j hj (Nat.le_of_succ_le hmj)
  | fails hpc | opens hpc | connects hpc | sends hpc | refuses hpc | counts hpc | runs hpc
  | drops hpc | forgets hpc | quits hpc =>
      rw [hpc] at hstuck
      cases hstuck

/-- It takes all its steps but the use of that client. -/
theorem Doomed.step_isSome_iff (h : t.Doomed cfg n) (k : Counters) (a : WorkAnswer) :
    (t.step cfg k a).isSome ↔ t.pc ≠ .closing n := by
  obtain ⟨hrun, hlt, hnull, hmade, hstuck⟩ := h
  rw [WorkThread.step]
  split
  · next hpc =>
      rw [if_neg (by simp [hrun]), hpc]
      simp
  · next hpc => simp [hpc]
  · next hpc =>
      rw [hpc] at hstuck
      cases hstuck
  · next hpc =>
      rw [hpc] at hstuck
      cases hstuck
  · next hpc => simp [hpc]
  · next hpc => simp [hpc]
  · next hpc => simp [hpc]
  · next hpc => simp [hpc]
  · next hpc =>
      rw [hpc] at hstuck
      cases hstuck
  · next hpc =>
      rw [hpc] at hstuck
      cases hstuck
  · next hpc =>
      rw [hpc] at hstuck
      cases hstuck
  · next hpc =>
      rw [hpc] at hstuck
      cases hstuck
  · next m hpc =>
      rw [hpc] at hmade hstuck
      have hle : m ≤ n := hstuck
      rw [if_pos (lt_of_le_of_lt hle hlt), hpc, closes]
      by_cases hmn : m = n
      · subst hmn
        simp [hnull]
      · have hsome := hmade m (Nat.lt_of_le_of_ne hle hmn) le_rfl
        simp [hsome, hmn]
  · next hpc =>
      rw [hpc] at hstuck
      cases hstuck
  · next hpc =>
      rw [hpc] at hstuck
      cases hstuck

end WorkThread

namespace LoadTest

variable {cfg : LoadConfig} {s s' : LoadTest} {i n : ℕ} {t t' : WorkThread}

/-! ### Runs -/

/-- `main` does not stop a thread that has a client to make. -/
def NotEarly (cfg : LoadConfig) (s : LoadTest) : LoadEvent → Prop
  | .main _ => ∀ n t, s.main = .closing n → s.threads[n]? = some t →
      ∀ j < cfg.nClient, t.pc ≠ .creating j
  | _ => True

/-- Whose turn it can be; `threads[n]->Close()` waits for the thread. -/
def Legal (cfg : LoadConfig) (s : LoadTest) : LoadEvent → Prop
  | .command => True
  | .main _ => s.main ≠ .done ∧
      ∀ n, s.main = .joining n → ∃ t, s.threads[n]? = some t ∧ t.pc = .finished
  | .work i a => ∃ t, s.threads[i]? = some t ∧ t.pc ≠ .finished ∧ t.Safe cfg a

theorem made_start (cfg : LoadConfig) : (WorkThread.start cfg).Made cfg where
  size := List.length_replicate
  clients _ _ hj := absurd hj (Nat.not_lt_zero _)
  creating _ _ _ := rfl
  opening := nofun

theorem made_invariant (cfg : LoadConfig) :
    ((system cfg).guard (NotEarly cfg)).Invariant fun s => ∀ t ∈ s.threads, t.Made cfg where
  init := by
    rintro s rfl
    simp [new]
  step s e s' h hs := by
    refine all_next h (made_start cfg) (fun ht hw => ht.worked hw) ?_ hs.2
    rintro x n t rfl hm ht hmade
    exact ⟨hmade.size, hmade.clients, fun j hj hlt => absurd hj (hs.1 n t hm ht j hlt),
      hmade.opening⟩

theorem growing_invariant (cfg : LoadConfig) :
    (system cfg).Invariant fun s => ∀ t ∈ s.threads, t.Growing cfg where
  init := by
    rintro s rfl
    simp [new]
  step _ _ _ h hs := all_next h (WorkThread.growing_start cfg) (fun ht hw => ht.worked hw)
    (fun _ _ _ _ _ _ ht => ⟨ht.size, ht.made, ht.null⟩) hs

/-- In a run in which no thread is stopped while it has a client to make, nothing is called through
a null pointer: every step whose turn it can be is taken. -/
theorem never_null (h : ((system cfg).guard (NotEarly cfg)).Reachable s) {e : LoadEvent}
    (hl : s.Legal cfg e) : ∃ s', s.next cfg e = some s' := by
  have hmade := (made_invariant cfg).reachable h
  cases e with
  | command => exact ⟨_, rfl⟩
  | main x =>
      obtain ⟨hdone, hjoin⟩ := hl
      rw [LoadTest.next, stepMain]
      split
      · split <;> exact ⟨_, rfl⟩
      · split <;> exact ⟨_, rfl⟩
      · exact ⟨_, rfl⟩
      · exact ⟨_, rfl⟩
      · exact ⟨_, rfl⟩
      · next n hm =>
          obtain ⟨t, ht, hf⟩ := hjoin n hm
          rw [ht, Option.bind_eq_bind, Option.bind_some, if_pos hf]
          exact ⟨_, rfl⟩
      · next hm => exact absurd hm hdone
  | work i a =>
      obtain ⟨t, ht, hf, hs⟩ := hl
      obtain ⟨r, hr⟩ := Option.isSome_iff_exists.mp
        ((hmade t (List.mem_of_getElem? ht)).step hf hs s.counters)
      refine ⟨{ s with counters := r.1, threads := s.threads.set i r.2 }, ?_⟩
      rw [LoadTest.next, ht, Option.bind_eq_bind, Option.bind_some, hr]
      rfl

/-- A step that stops no thread early. -/
def nextLate (cfg : LoadConfig) (s : LoadTest) (e : LoadEvent) : Option LoadTest :=
  match s.main with
  | .closing n =>
      if ∀ t ∈ s.threads[n]?, ∀ j < cfg.nClient, t.pc ≠ .creating j then s.next cfg e else none
  | _ => s.next cfg e

theorem notEarly_of_nextLate {e : LoadEvent} (h : nextLate cfg s e = some s') :
    s.NotEarly cfg e ∧ s.next cfg e = some s' := by
  cases e with
  | main x =>
      rw [nextLate] at h
      split at h
      · next n hm =>
          split at h
          · next hlate =>
              refine ⟨fun m t hm' ht => hlate t ?_, h⟩
              obtain rfl := MainPc.closing.inj (hm.symm.trans hm')
              exact ht
          · cases h
      · next hm => exact ⟨fun n _ hm' => absurd hm' (hm n), h⟩
  | command | work =>
      rw [nextLate] at h
      split at h
      · split at h
        · exact ⟨trivial, h⟩
        · cases h
      · exact ⟨trivial, h⟩

theorem reachable_of_nextLate {es : List LoadEvent} (h : es.foldlM (nextLate cfg) new = some s) :
    ((system cfg).guard (NotEarly cfg)).Reachable s :=
  ⟨new, es, rfl, .of_next (nextLate cfg) (fun _ _ _ hs => notEarly_of_nextLate hs) h⟩

/-- The first thread has sent a message when it is told to stop, and comes to its clients. -/
def clearing : List LoadEvent :=
  gathering ++ List.replicate 8 (.work 0 calm) ++ [.command, .main 0, .main 0] ++
    List.replicate 5 (.work 0 calm)

theorem never_null_clearing : ∃ s s', clearing.foldlM (nextLate pair) new = some s ∧
    s.counters.sendCount = 1 ∧ s.threads.map (fun t => t.pc) = [.closing 0, .waiting] ∧
    s.next pair (.work 0 calm) = some s' := by
  have hplay : (clearing.foldlM (nextLate pair) new).map (fun s =>
      (s.counters.sendCount, s.threads.map fun t => t.pc)) =
        some (1, [.closing 0, .waiting]) := by decide +kernel
  obtain ⟨s, hs, heq⟩ := Option.map_eq_some_iff.mp hplay
  obtain ⟨hcount, hpcs⟩ := Prod.mk.inj heq
  have hlegal : s.Legal pair (.work 0 calm) := by
    have hpc : s.threads[0]?.map (fun t => t.pc) = some (.closing 0) := by
      rw [← List.getElem?_map, hpcs]
      rfl
    obtain ⟨t, ht, hpc⟩ := Option.map_eq_some_iff.mp hpc
    refine ⟨t, ht, by simp [hpc], fun m n e hsend => ?_, fun n e hrun => ?_⟩
    · cases hpc.symm.trans hsend
    · cases hpc.symm.trans hrun
  obtain ⟨s', hs'⟩ := never_null (reachable_of_nextLate hs) hlegal
  exact ⟨s, s', hs, hcount, hpcs, hs'⟩

/-! ### A thread that is stopped early -/

/-- A thread that was stopped has ended, or is waited for. -/
def StopOk (s : LoadTest) : Prop :=
  ∀ i t, s.threads[i]? = some t → t.isRun = false → t.pc = .finished ∨ s.main = .joining i

theorem StopOk.mained (h : s.StopOk) (hm : s.Mained cfg s') : s'.StopOk := by
  intro i t ht hr
  cases hm with
  | goes hmain hg =>
      rcases h i t ht hr with hf | hj
      · exact .inl hf
      · rw [hmain] at hj
        subst hj
        cases hg with
        | joined hu hf =>
            obtain rfl := Option.some.inj (hu.symm.trans ht)
            exact .inl hf
  | starts hmain =>
      rcases List.mem_append.mp (List.mem_of_getElem? ht) with hu | hu
      · obtain ⟨j, hj⟩ := List.mem_iff_getElem?.mp hu
        rcases h j t hj hr with hf | hj
        · exact .inl hf
        · rw [hmain] at hj
          cases hj
      · obtain rfl := List.mem_singleton.mp hu
        cases hr
  | prints hmain | resets hmain =>
      rcases h i t ht hr with hf | hj
      · exact .inl hf
      · rw [hmain] at hj
        cases hj
  | stops hmain hu =>
      rcases getElem?_set_cases ht with ⟨rfl, -⟩ | ⟨-, ht⟩
      · exact .inr rfl
      · rcases h i t ht hr with hf | hj
        · exact .inl hf
        · rw [hmain] at hj
          cases hj

theorem stopOk_invariant (cfg : LoadConfig) : (system cfg).Invariant StopOk where
  init := by
    rintro s rfl i t ht
    cases ht
  step s e s' h hs := by
    cases e with
    | command =>
        obtain rfl := Option.some.inj hs
        exact h
    | main x => exact h.mained (mained_of_stepMain hs)
    | work j a =>
        obtain ⟨u, k', u', hu, hw, rfl⟩ := worked_of_next hs
        intro i t ht hr
        rcases getElem?_set_cases ht with ⟨rfl, rfl⟩ | ⟨-, ht⟩
        · rcases h i u hu (hw.isRun ▸ hr) with hf | hj
          · exact absurd hf hw.not_finished
          · exact .inr hj
        · exact h i t ht hr

theorem doomed_next {e : LoadEvent} (ht : s.threads[i]? = some t) (hd : t.Doomed cfg n)
    (hs : s.next cfg e = some s') : ∃ t', s'.threads[i]? = some t' ∧ t'.Doomed cfg n := by
  cases e with
  | command =>
      obtain rfl := Option.some.inj hs
      exact ⟨t, ht, hd⟩
  | main x =>
      cases mained_of_stepMain hs with
      | starts => exact ⟨t, List.getElem?_append_left (List.getElem?_eq_some_iff.mp ht).1 ▸ ht, hd⟩
      | @stops m u _ hu =>
          by_cases hm : m = i
          · subst hm
            obtain rfl := Option.some.inj (hu.symm.trans ht)
            exact ⟨_, getElem?_set_same ht _, rfl, hd.lt, hd.null, hd.made, hd.stuck⟩
          · exact ⟨t, by rwa [List.getElem?_set_ne hm], hd⟩
      | _ => exact ⟨t, ht, hd⟩
  | work j a =>
      obtain ⟨u, k', u', hu, hw, rfl⟩ := worked_of_next hs
      by_cases hj : j = i
      · subst hj
        obtain rfl := Option.some.inj (hu.symm.trans ht)
        exact ⟨_, getElem?_set_same ht _, hd.worked hw⟩
      · exact ⟨t, by rwa [List.getElem?_set_ne hj], hd⟩

/-- A thread that is stopped with `n` clients, one at least too few, never ends: in every run from
there `main` goes on to wait for it, and it takes all steps but the use of the null pointer behind
its last client. -/
theorem stopped_early (h : (system cfg).Reachable s) (ht : s.threads[i]? = some t)
    (hpc : t.pc = .creating n) (hr : t.isRun = false) (hn : n < cfg.nClient)
    {es : List LoadEvent} (hp : (system cfg).Path s es s') :
    s'.main = .joining i ∧ ∃ t', s'.threads[i]? = some t' ∧ t'.pc ≠ .finished ∧
      ∀ a, (s'.next cfg (.work i a)).isSome ↔ t'.pc ≠ .closing n := by
  have hgrowing := (growing_invariant cfg).reachable h t (List.mem_of_getElem? ht)
  have hdoomed : ∃ t', s'.threads[i]? = some t' ∧ t'.Doomed cfg n := by
    refine hp.preserves (P := fun x => ∃ u, x.threads[i]? = some u ∧ u.Doomed cfg n) ?_
      ⟨t, ht, hgrowing.doomed hpc hr hn⟩
    rintro x e y ⟨u, hu, hd⟩ hs
    exact doomed_next hu hd hs
  obtain ⟨t', ht', hd⟩ := hdoomed
  have hunfinished : t'.pc ≠ .finished := by
    intro hf
    have hstuck := hd.stuck
    rw [hf] at hstuck
    cases hstuck
  refine ⟨?_, t', ht', hunfinished, fun a => ?_⟩
  · rcases (stopOk_invariant cfg).reachable (h.path hp) i t' ht' hd.isRun with hf | hj
    · exact absurd hf hunfinished
    · exact hj
  · rw [← hd.step_isSome_iff s'.counters a, LoadTest.next, ht', Option.bind_eq_bind,
      Option.bind_some]
    cases t'.step cfg s'.counters a with
    | none => rfl
    | some r => rfl

/-- The user enters `exit` at once, and `main` stops the first thread. -/
def hasty : List LoadEvent := .command :: List.replicate 5 (.main 0)

theorem stopped_early_hasty : ∃ s s' t, play pair hasty = some s ∧
    (List.replicate 6 (.work 0 calm)).foldlM (next pair) s = some s' ∧
    s.threads[0]? = some t ∧ t.pc = .creating 0 ∧ s'.main = .joining 0 ∧
      ∃ t', s'.threads[0]? = some t' ∧ t'.pc ≠ .finished ∧
        ∀ a, (s'.next pair (.work 0 a)).isSome ↔ t'.pc ≠ .closing 0 := by
  have hplay : ((play pair hasty).bind fun s =>
      ((List.replicate 6 (.work 0 calm)).foldlM (next pair) s).bind fun _ =>
        s.threads[0]?.map fun t => (t.pc, t.isRun)) = some (.creating 0, false) := by
    decide +kernel
  obtain ⟨s, hs, hplay⟩ := Option.bind_eq_some_iff.mp hplay
  obtain ⟨s', hs', hplay⟩ := Option.bind_eq_some_iff.mp hplay
  obtain ⟨t, ht, heq⟩ := Option.map_eq_some_iff.mp hplay
  obtain ⟨hpc, hr⟩ := Prod.mk.inj heq
  exact ⟨s, s', t, hs, hs', ht, hpc, stopped_early (reachable_of_play hs) ht hpc hr (by decide)
    (.of_next (next pair) (fun _ _ _ h => h) hs')⟩

end LoadTest

end CellNet
