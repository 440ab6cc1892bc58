import CellNet.Verification.Load.Barrier

/-! What the statistics of the test client show: never more messages than were sent, and as
connected also the clients whose `OnRun` has closed them and returned `true`. -/

namespace CellNet

open Library

/-! ### The calls on a client -/

namespace MyClient

variable {cfg : ClientConfig} {e : EasyTcpClient MyClient}

theorem isRun_close (e : EasyTcpClient MyClient) : e.close.isRun = false := rfl

theorem isRun_sendTest {fields : List UInt8} {r : EasyTcpClient MyClient × ℤ}
    (h : sendTest cfg e fields = some r) : r.1.isRun = e.isRun := by
  have hsend : ∀ {x : EasyTcpClient MyClient × ℤ} {header : List UInt8},
      e.sendHeader header = some x → x.1.isRun = e.isRun := by
    intro x header hx
    rw [EasyTcpClient.sendHeader] at hx
    split at hx
    · next hrun =>
        obtain ⟨c, hc, hx⟩ := Option.bind_eq_some_iff.mp hx
        obtain ⟨y, -, rfl⟩ := Option.map_eq_some_iff.mp hx
        simp [EasyTcpClient.isRun, hc]
    · obtain rfl := Option.some.inj hx
      rfl
  rw [sendTest] at h
  split at h
  · obtain ⟨x, hx, h⟩ := Option.bind_eq_some_iff.mp h
    have hkeep := hsend hx
    split at h
    · obtain rfl := Option.some.inj h
      exact hkeep
    · obtain rfl := Option.some.inj h
      exact hkeep
  · obtain rfl := Option.some.inj h
    rfl

/-- `OnRun` returns `false` to a client that runs only behind `Close`. -/
theorem isRun_onRun {a : RunAnswer} {r : EasyTcpClient MyClient} (he : e.isRun = true)
    (h : onRun e a = some (r, false)) : r.isRun = false := by
  rw [onRun.eq_def, if_pos he] at h
  split at h
  · cases h
  · cases h
  · obtain ⟨rfl, -⟩ := Prod.mk.inj (Option.some.inj h)
    exact isRun_close e
  · obtain ⟨x, -, h⟩ := Option.bind_eq_some_iff.mp h
    split at h
    · cases h
    · obtain ⟨y, -, h⟩ := Option.map_eq_some_iff.mp h
      cases h

/-- A client whose connection is not made stays so if `InitSocket` or `Connect` fails. -/
theorem isConnect_connect (he : e.isConnect = false) (x : SocketAnswer) (ret : ℤ) :
    (connect e x ret).1.isRun = (connect e x ret).2 := by
  rw [connect]
  split
  · simp [EasyTcpClient.isRun, he]
  · dsimp only
    split
    · simp [EasyTcpClient.isRun, he]
    · rfl

end MyClient

/-! ### What is counted -/

/-- A client that runs and is not in `nConnect` yet. -/
def WorkPc.uncounted : WorkPc → ℕ
  | .connected _ => 1
  | _ => 0

/-- A client that does not run and is still in `nConnect`. -/
def WorkPc.overcounted : WorkPc → ℕ
  | .dropped _ => 1
  | _ => 0

/-- A message that was written and is not in `sendCount` yet. -/
def WorkPc.unreported : WorkPc → ℕ
  | .sent _ _ => 1
  | _ => 0

namespace WorkThread

variable {cfg : LoadConfig} {k k' : Counters} {t t' : WorkThread} {a : WorkAnswer} {n : ℕ}

/-- The number of the clients that run. -/
def connected (t : WorkThread) : ℕ :=
  (t.clients.map fun c => if c.any EasyTcpClient.isRun then 1 else 0).sum

/-- Whether the next step is a `SendTest` that writes a message. -/
def delivers (cfg : LoadConfig) (t : WorkThread) : Bool :=
  match t.pc with
  | .sending m n => decide ((m : ℤ) < cfg.nMsg ∧ n < cfg.nClient) &&
      (t.client n).any fun e => e.isRun &&
        (MyClient.sendTest cfg.toClientConfig e cfg.login.val).any fun r => decide (r.2 > 0)
  | _ => false

/-- Whether the next step closes a client that runs, but for an `OnRun` that returns `false`. -/
def loses (cfg : LoadConfig) (t : WorkThread) (a : WorkAnswer) : Bool :=
  match t.pc with
  | .running n => decide (n < cfg.nClient) && (t.client n).any fun e => e.isRun &&
      (MyClient.onRun e a.run).any fun r => r.2 && !r.1.isRun
  | .closing n => decide (n < cfg.nClient) && (t.client n).any EasyTcpClient.isRun
  | _ => false

/-- The next step of a thread that has written a message counts it. -/
theorem Worked.sendCount (h : Worked cfg k t a k' t') (hk : wrap32 k.sendCount = k.sendCount) :
    k'.sendCount = wrap32 (k.sendCount + t.pc.unreported) := by
  cases h with
  | goes hpc hg => cases hg <;> simp [hpc, hk, WorkPc.unreported]
  | creates hpc | fails hpc | opens hpc | connects hpc | readies hpc | begins hpc | sends hpc
  | refuses hpc | counts hpc | runs hpc | drops hpc | forgets hpc | closes hpc | quits hpc =>
      simp [hpc, hk, WorkPc.unreported]

theorem Worked.unreported (h : Worked cfg k t a k' t') :
    t'.pc.unreported = if t.delivers cfg then 1 else 0 := by
  cases h with
  | goes hpc hg =>
      cases hg with
      | skipSend he hr => simp [delivers, hpc, he, hr, WorkPc.unreported]
      | round hn => simp [delivers, hpc, not_lt.mpr hn, WorkPc.unreported]
      | sent hm => simp [delivers, hpc, not_lt.mpr hm, WorkPc.unreported]
      | _ => simp [delivers, hpc, WorkPc.unreported]
  | sends hpc he hrun hr hpos hmn =>
      simp [delivers, hpc, he, hrun, hr, hpos, hmn, WorkPc.unreported]
  | refuses hpc he hrun hr hpos =>
      simp [delivers, hpc, he, hrun, hr, hpos, WorkPc.unreported]
  | creates hpc | fails hpc | opens hpc | connects hpc | readies hpc | begins hpc | counts hpc
  | runs hpc | drops hpc | forgets hpc | closes hpc | quits hpc =>
      simp [delivers, hpc, WorkPc.unreported]

theorem connected_put (pc : WorkPc) {c : Option (EasyTcpClient MyClient)}
    (hc : t.clients[n]? = some c) (c' : Option (EasyTcpClient MyClient)) :
    (t.put n c' pc).connected + (if c.any EasyTcpClient.isRun then 1 else 0) =
      t.connected + if c'.any EasyTcpClient.isRun then 1 else 0 :=
  sum_map_set hc _ c'

theorem getElem?_of_client {e : EasyTcpClient MyClient} (h : t.client n = some e) :
    t.clients[n]? = some (some e) :=
  Option.join_eq_some_iff.mp h

/-- Before it is opened, a client is not connected. -/
structure Unopened (cfg : LoadConfig) (t : WorkThread) : Prop where
  size : t.clients.length = cfg.nClient
  creating : ∀ n, t.pc = .creating n → ∀ j e, t.client j = some e → e.isConnect = false
  connecting : ∀ n, t.pc = .connecting n ∨ t.pc = .opening n → ∀ j e, n ≤ j →
    t.client j = some e → e.isConnect = false
  connected : ∀ n, t.pc = .connected n → ∀ j e, n < j →
    t.client j = some e → e.isConnect = false

theorem unopened_start (cfg : LoadConfig) : (start cfg).Unopened cfg where
  size := List.length_replicate
  creating n _ j e he := by
    rw [client, start, List.getElem?_replicate] at he
    split at he <;> cases he
  connecting := by
    rintro n (hn | hn)
    · cases hn
    · cases hn
  connected := nofun

theorem Unopened.worked (h : t.Unopened cfg) (hw : Worked cfg k t a k' t') :
    t'.Unopened cfg := by
  cases hw with
  | goes hpc hg =>
      cases hg with
      | created =>
          refine ⟨h.size, nofun, ?_, nofun⟩
          intro n _ j e _ he
          exact h.creating _ hpc j e he
      | connecting =>
          refine ⟨h.size, nofun, ?_, nofun⟩
          rintro n (hn | hn) j e hj he
          · cases hn
          · obtain rfl := WorkPc.opening.inj hn
            exact h.connecting _ (.inl hpc) j e hj he
      | _ =>
          refine ⟨h.size, nofun, ?_, nofun⟩
          rintro n (hn | hn)
          · cases hn
          · cases hn
  | @creates n hpc hn _ =>
      have hlen : n < t.clients.length := h.size.symm ▸ hn
      refine ⟨by rw [length_put, h.size], ?_, ?_, nofun⟩
      · intro _ _ j e he
        by_cases hj : j = n
        · rw [hj, client_put_self hlen] at he
          obtain rfl := Option.some.inj he
          rfl
        · rw [client_put_ne hj] at he
          exact h.creating n hpc j e he
      · rintro m (hm | hm)
        · cases hm
        · cases hm
  | @opens n c hpc _ _ =>
      refine ⟨by rw [length_put, h.size], nofun, ?_, ?_⟩
      · rintro m (hm | hm)
        · cases hm
        · cases hm
      · intro m hm j e hj he
        obtain rfl := WorkPc.connected.inj hm
        rw [client_put_ne hj.ne'] at he
        exact h.connecting n (.inr hpc) j e hj.le he
  | @connects n hpc =>
      refine ⟨h.size, nofun, ?_, nofun⟩
      rintro m (hm | hm) j e hj he
      · obtain rfl := WorkPc.connecting.inj hm
        exact h.connected n hpc j e hj he
      · cases hm
  | readies | begins | counts | forgets | quits =>
      refine ⟨h.size, nofun, ?_, nofun⟩
      rintro n (hn | hn)
      · cases hn
      · cases hn
  | _ =>
      refine ⟨by rw [length_put, h.size], nofun, ?_, nofun⟩
      rintro n (hn | hn)
      · cases hn
      · cases hn

@[simp] theorem connected_goto (t : WorkThread) (pc : WorkPc) :
    (t.goto pc).connected = t.connected := rfl

/-- The next step of a thread that has made or lost a connection counts it. -/
theorem Worked.nConnect (h : Worked cfg k t a k' t') (hk : wrap32 k.nConnect = k.nConnect) :
    k'.nConnect = wrap32 (k.nConnect + t.pc.uncounted - t.pc.overcounted) := by
  cases h with
  | goes hpc hg => cases hg <;> simp [hpc, hk, WorkPc.uncounted, WorkPc.overcounted]
  | creates hpc | fails hpc | opens hpc | connects hpc | readies hpc | begins hpc | sends hpc
  | refuses hpc | counts hpc | runs hpc | drops hpc | forgets hpc | closes hpc | quits hpc =>
      simp [hpc, hk, WorkPc.uncounted, WorkPc.overcounted]

/-- No other step makes a connection, or loses one, but for those that are lost silently. -/
theorem Worked.connected (h : Worked cfg k t a k' t') (hu : t.Unopened cfg) :
    t'.connected + t'.pc.overcounted + (if t.loses cfg a then 1 else 0) =
      t.connected + t'.pc.uncounted := by
  cases h with
  | goes hpc hg =>
      have hl : t.loses cfg a = false := by
        cases hg with
        | skipRun he hr => simp [loses, hpc, he, hr]
        | worked hn => simp [loses, hpc, not_lt.mpr hn]
        | closed hn => simp [loses, hpc, not_lt.mpr hn]
        | _ => simp [loses, hpc]
      cases hg <;> simp [hl, WorkPc.overcounted, WorkPc.uncounted]
  | @creates n hpc hn _ =>
      have hl : t.loses cfg a = false := by simp [loses, hpc]
      have hlen : n < t.clients.length := hu.size.symm ▸ hn
      have hget := List.getElem?_eq_getElem hlen
      have hput := connected_put (.creating (n + 1)) hget
        (some (MyClient.create cfg.toClientConfig cfg.hasKey n))
      have hold : t.clients[n].any EasyTcpClient.isRun = false := by
        cases hc : t.clients[n] with
        | none => rfl
        | some e =>
            have he : t.client n = some e := by rw [client, hget, hc]; rfl
            simp [EasyTcpClient.isRun, hu.creating n hpc n e he]
      have hnew : (MyClient.create cfg.toClientConfig cfg.hasKey n).isRun = false := rfl
      simp only [hold, Option.any_some, hnew, Bool.false_eq_true, if_false] at hput
      simp only [hl, pc_put, WorkPc.overcounted, WorkPc.uncounted, Bool.false_eq_true, if_false]
      omega
  | @fails n e hpc he hr =>
      have hl : t.loses cfg a = false := by simp [loses, hpc]
      have hconn := hu.connecting n (.inr hpc) n e le_rfl he
      have hput := connected_put .ready (getElem?_of_client he)
        (some (MyClient.connect e a.socket a.connect).1)
      have hold : e.isRun = false := by simp [EasyTcpClient.isRun, hconn]
      simp only [Option.any_some, hold, MyClient.isConnect_connect hconn, hr, Bool.false_eq_true,
        if_false] at hput
      simp only [hl, pc_put, WorkPc.overcounted, WorkPc.uncounted, Bool.false_eq_true, if_false]
      omega
  | @opens n e hpc he hr =>
      have hl : t.loses cfg a = false := by simp [loses, hpc]
      have hconn := hu.connecting n (.inr hpc) n e le_rfl he
      have hput := connected_put (.connected n) (getElem?_of_client he)
        (some (MyClient.connect e a.socket a.connect).1)
      have hold : e.isRun = false := by simp [EasyTcpClient.isRun, hconn]
      simp only [Option.any_some, hold, MyClient.isConnect_connect hconn, hr, Bool.false_eq_true,
        if_false, if_true] at hput
      simp only [hl, pc_put, WorkPc.overcounted, WorkPc.uncounted, Bool.false_eq_true, if_false]
      omega
  | connects hpc | readies hpc | counts hpc | forgets hpc | quits hpc =>
      have hl : t.loses cfg a = false := by simp [loses, hpc]
      simp [hl, WorkPc.overcounted, WorkPc.uncounted]
  | begins hpc =>
      have hl : t.loses cfg a = false := by simp [loses, hpc]
      simp [hl, connected, WorkPc.overcounted, WorkPc.uncounted]
  | @sends m n e r hpc he hrun hr =>
      have hl : t.loses cfg a = false := by simp [loses, hpc]
      have hput := connected_put (.sent m n) (getElem?_of_client he) (some r.1)
      simp only [Option.any_some, MyClient.isRun_sendTest hr, hrun, if_true] at hput
      simp only [hl, pc_put, WorkPc.overcounted, WorkPc.uncounted, Bool.false_eq_true, if_false]
      omega
  | @refuses m n e r hpc he hrun hr =>
      have hl : t.loses cfg a = false := by simp [loses, hpc]
      have hput := connected_put (.sending m (n + 1)) (getElem?_of_client he) (some r.1)
      simp only [Option.any_some, MyClient.isRun_sendTest hr, hrun, if_true] at hput
      simp only [hl, pc_put, WorkPc.overcounted, WorkPc.uncounted, Bool.false_eq_true, if_false]
      omega
  | @runs n e r hpc he hrun hr hn =>
      have hl : t.loses cfg a = !r.isRun := by simp [loses, hpc, he, hrun, hr, hn]
      have hput := connected_put (.running (n + 1)) (getElem?_of_client he)
        (some { r with ext := (r.ext.checkSend cfg.toClientConfig t.dt).1 })
      have hnew : ({ r with ext := (r.ext.checkSend cfg.toClientConfig t.dt).1 } :
          EasyTcpClient MyClient).isRun = r.isRun := rfl
      simp only [Option.any_some, hrun, hnew, if_true] at hput
      simp only [hl, pc_put, WorkPc.overcounted, WorkPc.uncounted]
      cases hb : r.isRun <;> simp only [hb, Bool.false_eq_true, Bool.not_true, Bool.not_false,
        if_false, if_true] at hput ⊢ <;> omega
  | @drops n e r hpc he hrun hr hn =>
      have hl : t.loses cfg a = false := by simp [loses, hpc, he, hrun, hr]
      have hput := connected_put (.dropped n) (getElem?_of_client he) (some r)
      simp only [Option.any_some, hrun, MyClient.isRun_onRun hrun hr, Bool.false_eq_true, if_false,
        if_true] at hput
      simp only [hl, pc_put, WorkPc.overcounted, WorkPc.uncounted, Bool.false_eq_true, if_false]
      omega
  | @closes n e hpc hn he =>
      have hl : t.loses cfg a = e.isRun := by simp [loses, hpc, he, hn]
      have hput := connected_put (.closing (n + 1)) (getElem?_of_client he) none
      simp only [Option.any_some, Option.any_none, Bool.false_eq_true, if_false] at hput
      simp only [hl, pc_put, WorkPc.overcounted, WorkPc.uncounted]
      cases hb : e.isRun <;> simp only [hb, Bool.false_eq_true, if_false, if_true] at hput ⊢ <;>
        omega

end WorkThread

/-! ### The whole program -/

namespace LoadTest

/-- The number of the clients that run, in all threads. -/
def connected (s : LoadTest) : ℕ := (s.threads.map WorkThread.connected).sum

/-- The number of the threads that are about to enter `nConnect++`. -/
def uncounted (s : LoadTest) : ℕ := (s.threads.map fun t => t.pc.uncounted).sum

/-- The number of the threads that are about to enter `nConnect--`. -/
def overcounted (s : LoadTest) : ℕ := (s.threads.map fun t => t.pc.overcounted).sum

/-- The number of the threads that are about to enter `++sendCount`. -/
def unreported (s : LoadTest) : ℕ := (s.threads.map fun t => t.pc.unreported).sum

def delivers (cfg : LoadConfig) (s : LoadTest) : LoadEvent → Bool
  | .work i _ => s.threads[i]?.any fun t => t.delivers cfg
  | _ => false

def loses (cfg : LoadConfig) (s : LoadTest) : LoadEvent → Bool
  | .work i a => s.threads[i]?.any fun t => t.loses cfg a
  | _ => false

end LoadTest

/-- The program with what a maintainer would count: the messages that were written, and the
connections that were closed without a word to `nConnect`. -/
structure Tally where
  load : LoadTest
  sent : ℕ
  silent : ℕ

namespace Tally

variable {cfg : LoadConfig} {w w' : Tally}

def next (cfg : LoadConfig) (w : Tally) (e : LoadEvent) : Option Tally :=
  (w.load.next cfg e).map fun load =>
    { load
      sent := w.sent + if w.load.delivers cfg e then 1 else 0
      silent := w.silent + if w.load.loses cfg e then 1 else 0 }

def system (cfg : LoadConfig) : System Tally LoadEvent where
  init w := w = ⟨.new, 0, 0⟩
  step w e w' := w.next cfg e = some w'

/-- What `nConnect` holds, but for an overflow. -/
def balance (s : LoadTest) (silent : ℕ) : ℤ := s.connected + s.overcounted + silent - s.uncounted

/-- What the shown numbers, and what is in `sendCount` or on its way there, add up to. -/
def accounted (s : LoadTest) : ℤ :=
  s.shown.sum + s.unreported + if s.main = .resetting then 0 else max s.counters.sendCount 0

structure TallyOk (cfg : LoadConfig) (w : Tally) : Prop where
  unopened : ∀ t ∈ w.load.threads, t.Unopened cfg
  nConnect : w.load.counters.nConnect = wrap32 (balance w.load w.silent)
  sendCount : wrap32 w.load.counters.sendCount = w.load.counters.sendCount
  printing : ∀ t, w.load.main = .printing t → 1 ≤ t
  sent : accounted w.load ≤ w.sent

/-- A quotient that is rounded, and then cut off, is not more than its dividend; one that comes of
an overflow is not positive. -/
theorem perSecond_le {n : ℤ} {t : ℚ} (hn : wrap32 n = n) (ht : 1 ≤ t) :
    perSecond n t ≤ max n 0 := by
  have hrange : -2147483648 ≤ n ∧ n ≤ 2147483647 := by
    rw [wrap32] at hn
    omega
  rcases le_total 0 n with hpos | hneg
  · have hbits : n.natAbs < 2 ^ double.precision := by
      have hlt : n.natAbs < 2147483649 := by omega
      exact hlt.trans (by decide)
    exact le_max_of_le_left (truncate_le (FloatFormat.round_div_le hpos hbits ht))
  · have hquot : (n : ℚ) / t ≤ 0 :=
      div_nonpos_of_nonpos_of_nonneg (by exact_mod_cast hneg) (zero_le_one.trans ht)
    refine le_max_of_le_right (truncate_le ?_)
    exact_mod_cast FloatFormat.round_nonpos (F := double) hquot

example : perSecond 1000002 (1000002 / 1000000) = 1000000 := by decide +kernel

theorem connected_start (cfg : LoadConfig) : (WorkThread.start cfg).connected = 0 := by
  simp [WorkThread.connected, WorkThread.start]

/-- What is counted of the threads is counted alike of a thread that is told to stop. -/
theorem balance_stop {s : LoadTest} {n : ℕ} {t : WorkThread} (ht : s.threads[n]? = some t)
    (silent : ℕ) : balance { s with
        threads := s.threads.set n { t with isRun := false }
        main := .joining n } silent = balance s silent := by
  have hconn := sum_map_set ht WorkThread.connected { t with isRun := false }
  have hover := sum_map_set ht (fun t => t.pc.overcounted) { t with isRun := false }
  have hun := sum_map_set ht (fun t => t.pc.uncounted) { t with isRun := false }
  have hsame : ({ t with isRun := false } : WorkThread).connected = t.connected := rfl
  rw [hsame] at hconn
  simp only [balance, LoadTest.connected, LoadTest.overcounted, LoadTest.uncounted] at hover hun ⊢
  omega

/-- A step of `main` shows at most what is in `sendCount`, and then may throw away more. -/
theorem TallyOk.mained (h : w.TallyOk cfg) {s' : LoadTest} (hm : w.load.Mained cfg s') :
    balance s' w.silent = balance w.load w.silent ∧
      s'.counters.nConnect = w.load.counters.nConnect ∧
      wrap32 s'.counters.sendCount = s'.counters.sendCount ∧
      (∀ t, s'.main = .printing t → 1 ≤ t) ∧ accounted s' ≤ w.sent := by
  have hcount := h.sendCount
  have hsent := h.sent
  cases hm with
  | goes hmain hg =>
      refine ⟨rfl, rfl, hcount, ?_, ?_⟩
      · rintro t rfl
        cases hg with
        | second ht => exact ht
      · rw [accounted, hmain, LoadTest.unreported] at hsent
        cases hg <;> simpa [accounted, LoadTest.unreported] using hsent
  | starts hmain =>
      refine ⟨?_, rfl, hcount, ?_, ?_⟩
      · simp [balance, LoadTest.connected, LoadTest.overcounted, LoadTest.uncounted,
          connected_start, WorkPc.overcounted, WorkPc.uncounted]
      · intro t ht
        cases hmain.symm.trans ht
      · simpa [accounted, hmain, LoadTest.unreported, WorkPc.unreported] using hsent
  | @prints t hmain =>
      refine ⟨rfl, rfl, hcount, nofun, ?_⟩
      have hle := perSecond_le hcount (h.printing t hmain)
      simp only [accounted, hmain, reduceCtorEq, if_false, if_true, List.sum_append,
        List.sum_singleton, LoadTest.unreported] at hsent ⊢
      omega
  | resets hmain =>
      refine ⟨rfl, rfl, rfl, nofun, ?_⟩
      simpa [accounted, hmain, LoadTest.unreported] using hsent
  | @stops n t hmain ht =>
      refine ⟨balance_stop ht _, rfl, hcount, nofun, ?_⟩
      have hsum := sum_map_set ht (fun t => t.pc.unreported) { t with isRun := false }
      simp only [accounted, hmain, reduceCtorEq, if_false, LoadTest.unreported] at hsent hsum ⊢
      omega

/-- A step of a thread, by what it changes of the counters and of what is on its way there. -/
theorem TallyOk.worked (h : w.TallyOk cfg) {i : ℕ} {t t' : WorkThread} {a : WorkAnswer}
    {k' : Counters} (ht : w.load.threads[i]? = some t)
    (hw : WorkThread.Worked cfg w.load.counters t a k' t') :
    k'.nConnect = wrap32 (balance { w.load with
        counters := k', threads := w.load.threads.set i t' }
        (w.silent + if t.loses cfg a then 1 else 0)) ∧
      wrap32 k'.sendCount = k'.sendCount ∧
      accounted { w.load with counters := k', threads := w.load.threads.set i t' } ≤
        (w.sent + if t.delivers cfg then 1 else 0 : ℕ) := by
  have hrange : wrap32 w.load.counters.nConnect = w.load.counters.nConnect := by
    rw [h.nConnect, wrap32_wrap32]
  have hsend := hw.sendCount h.sendCount
  refine ⟨?_, by rw [hsend, wrap32_wrap32], ?_⟩
  · have hconn := sum_map_set ht WorkThread.connected t'
    have hover := sum_map_set ht (fun t => t.pc.overcounted) t'
    have hun := sum_map_set ht (fun t => t.pc.uncounted) t'
    have hone := hw.connected (h.unopened t (List.mem_of_getElem? ht))
    rw [hw.nConnect hrange, h.nConnect]
    simp only [balance, LoadTest.connected, LoadTest.overcounted, LoadTest.uncounted, wrap32]
      at hover hun ⊢
    omega
  · have hsum := sum_map_set ht (fun t => t.pc.unreported) t'
    have hunreported := hw.unreported
    have hsent := h.sent
    have hcount := h.sendCount
    simp only [accounted, LoadTest.unreported, hsend, wrap32] at hsent hsum hcount ⊢
    rw [hunreported] at hsum
    split at hsent <;> simp only [*, if_true, if_false] <;> omega

theorem TallyOk.next (h : w.TallyOk cfg) {e : LoadEvent} (hn : w.next cfg e = some w') :
    w'.TallyOk cfg := by
  obtain ⟨s', hs, rfl⟩ := Option.map_eq_some_iff.mp hn
  have hunopened : ∀ t ∈ s'.threads, t.Unopened cfg :=
    LoadTest.all_next h.unopened (WorkThread.unopened_start cfg) (fun ht hw => ht.worked hw)
      (fun _ _ _ _ _ _ ht => ⟨ht.size, ht.creating, ht.connecting, ht.connected⟩) hs
  cases e with
  | command =>
      obtain rfl := Option.some.inj hs
      exact ⟨hunopened, h.nConnect, h.sendCount, h.printing, h.sent⟩
  | main x =>
      obtain ⟨hbalance, hconn, hcount, hprinting, hsent⟩ :=
        h.mained (LoadTest.mained_of_stepMain hs)
      refine ⟨hunopened, ?_, hcount, hprinting, hsent⟩
      exact hconn.trans (hbalance ▸ h.nConnect)
  | work i a =>
      obtain ⟨t, k', t', ht, hw, rfl⟩ := LoadTest.worked_of_next hs
      have hdelivers : w.load.delivers cfg (.work i a) = t.delivers cfg := by
        simp [LoadTest.delivers, ht]
      have hloses : w.load.loses cfg (.work i a) = t.loses cfg a := by simp [LoadTest.loses, ht]
      obtain ⟨hconn, hcount, hsent⟩ := h.worked ht hw
      refine ⟨hunopened, ?_, hcount, h.printing, ?_⟩
      · rw [hloses]
        exact hconn
      · rw [hdelivers]
        exact hsent

theorem tally_invariant (cfg : LoadConfig) : (system cfg).Invariant (TallyOk cfg) where
  init := by
    rintro w rfl
    have hzero : (0 : ℤ) = wrap32 0 := by decide
    exact ⟨by simp [LoadTest.new], hzero, hzero.symm, nofun, le_rfl⟩
  step _ _ _ h hs := h.next hs

/-- In every order of the steps, the number that is shown as connected is that of the clients that
run and of those whose connection was closed behind its back, by an `OnRun` that returned `true` or
at the end of a thread; but for the threads between a connection, or its end, and its count. -/
theorem connections_shown {w : Tally} (h : (system cfg).Reachable w) :
    w.load.counters.nConnect =
      wrap32 (w.load.connected + w.load.overcounted + w.silent - w.load.uncounted) :=
  ((tally_invariant cfg).reachable h).nConnect

def play (cfg : LoadConfig) (es : List LoadEvent) : Option Tally :=
  es.foldlM (next cfg) ⟨.new, 0, 0⟩

theorem reachable_of_play {es : List LoadEvent} (h : play cfg es = some w) :
    (system cfg).Reachable w :=
  ⟨⟨.new, 0, 0⟩, es, rfl, .of_next (next cfg) (fun _ _ _ hs => hs) h⟩

/-- The receive of the first client fails; the `epoll_wait` of the second one fails, and its thread
has not said so yet. -/
def breaking : List LoadEvent :=
  LoadTest.gathering ++ List.replicate 3 (.work 0 LoadTest.calm) ++
    [.work 0 { LoadTest.calm with run := .ready (some none) none }] ++
    List.replicate 5 (.work 1 LoadTest.calm) ++ [.work 1 { LoadTest.calm with run := .failed }]

theorem connections_shown_breaking : ∃ w, play LoadTest.pair breaking = some w ∧
    w.load.overcounted = 1 ∧ w.silent = 1 ∧
    w.load.counters.nConnect =
      wrap32 (w.load.connected + w.load.overcounted + w.silent - w.load.uncounted) := by
  have hplay : (play LoadTest.pair breaking).map (fun w => (w.load.overcounted, w.silent)) =
      some (1, 1) := by decide +kernel
  obtain ⟨w, hw, heq⟩ := Option.map_eq_some_iff.mp hplay
  obtain ⟨hover, hsilent⟩ := Prod.mk.inj heq
  exact ⟨w, hw, hover, hsilent, connections_shown (reachable_of_play hw)⟩

/-- In every order of the steps, all the numbers that were shown for the messages of a second add up
to no more than the messages that were written; what is counted while `main` resets is not shown. -/
theorem sends_shown {w : Tally} (h : (system cfg).Reachable w) : w.load.shown.sum ≤ w.sent := by
  have hok := (tally_invariant cfg).reachable h
  have hsent := hok.sent
  have hcount := hok.sendCount
  rw [accounted] at hsent
  split at hsent <;> omega

/-- Each client writes a message in the second round of its thread; one of them is counted when
`main` shows its number. -/
def reporting : List LoadEvent :=
  LoadTest.gathering ++ List.replicate 8 (.work 0 LoadTest.calm) ++
    List.replicate 9 (.work 1 LoadTest.calm) ++ [.main 1, .main 1]

theorem sends_shown_reporting : ∃ w, play LoadTest.pair reporting = some w ∧
    w.load.shown = [1] ∧ w.sent = 2 ∧ w.load.shown.sum ≤ w.sent := by
  have hplay : (play LoadTest.pair reporting).map (fun w => (w.load.shown, w.sent)) =
      some ([1], 2) := by decide +kernel
  obtain ⟨w, hw, heq⟩ := Option.map_eq_some_iff.mp hplay
  obtain ⟨hshown, hsent⟩ := Prod.mk.inj heq
  exact ⟨w, hw, hshown, hsent, sends_shown (reachable_of_play hw)⟩

end Tally

end CellNet
