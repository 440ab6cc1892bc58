import CellNet.Verification.Session.Continuity

/-! The test client keeps to its rate: `nMsg` messages for each `nSendSleep` milliseconds that
`checkSend` was told of, however the calls are spread over the time. -/

namespace CellNet

open Library

/-- The time of which an event tells the client. -/
def SessionEvent.dt : SessionEvent → ℤ
  | .checkSend dt => dt
  | _ => 0

namespace Session

variable {cfg : ClientConfig} {s t : Session}

/-- What `SendTest` returns. -/
def returned (cfg : ClientConfig) (s : Session) : SessionEvent → ℤ
  | .sendTest login => ((MyClient.sendTest cfg s.client login.val).map Prod.snd).getD 0
  | _ => 0

/-- The statistics of the program: `if (clients[n]->SendTest(&login) > 0) ++sendCount;`. -/
def sendCount (cfg : ClientConfig) : Session → List SessionEvent → ℕ
  | _, [] => 0
  | s, e :: es =>
      (if returned cfg s e > 0 then 1 else 0) +
        match s.next cfg e with
        | some t => sendCount cfg t es
        | none => 0

def elapsed (es : List SessionEvent) : ℤ := (es.map SessionEvent.dt).sum

/-- A call of `SendTest` that counts was paid for. -/
theorem sendTest_pays {e : EasyTcpClient MyClient} {fields : List UInt8}
    {r : EasyTcpClient MyClient × ℤ} (hr : MyClient.sendTest cfg e fields = some r)
    (h0 : 0 ≤ e.ext.nSendCount) :
    r.1.ext.tRestTime = e.ext.tRestTime ∧ 0 ≤ r.1.ext.nSendCount ∧
      r.1.ext.nSendCount + (if r.2 > 0 then 1 else 0 : ℕ) ≤ e.ext.nSendCount := by
  rw [MyClient.sendTest] at hr
  split at hr
  · next hturn =>
      obtain ⟨x, hx, hr⟩ := Option.bind_eq_some_iff.mp hr
      have hext : x.1.ext = e.ext := by
        rw [EasyTcpClient.sendHeader] at hx
        split at hx
        · obtain ⟨c, -, hx⟩ := Option.bind_eq_some_iff.mp hx
          obtain ⟨y, -, rfl⟩ := Option.map_eq_some_iff.mp hx
          rfl
        · obtain rfl := Option.some.inj hx
          rfl
      split at hr
      · obtain rfl := Option.some.inj hr
        have hcount : x.1.ext.nSendCount = e.ext.nSendCount := by rw [hext]
        refine ⟨by rw [hext], ?_, ?_⟩
        · dsimp only
          omega
        · dsimp only
          split <;> omega
      · next herr =>
          obtain rfl := Option.some.inj hr
          have hret : x.2 = -1 := (not_not.mp herr).symm
          rw [hext, hret]
          exact ⟨rfl, h0, by simp⟩
  · obtain rfl := Option.some.inj hr
    exact ⟨rfl, h0, by simp⟩

theorem onNetMsg_pace {m m' : MyClient} {sockfd : SOCKET} {header : List UInt8}
    (h : m.onNetMsg sockfd header = some m') :
    m'.tRestTime = m.tRestTime ∧ m'.nSendCount = m.nSendCount := by
  rw [MyClient.onNetMsg] at h
  split at h
  · rw [MyClient.onLoginResult] at h
    split at h
    · obtain ⟨id, -, h⟩ := Option.bind_eq_some_iff.mp h
      obtain rfl := Option.some.inj h
      exact ⟨rfl, rfl⟩
    · obtain rfl := Option.some.inj h
      exact ⟨rfl, rfl⟩
  · split at h
    · obtain rfl := Option.some.inj h
      exact ⟨rfl, rfl⟩
    · split at h
      · obtain rfl := Option.some.inj h
        exact ⟨rfl, rfl⟩
      · split at h <;> (obtain rfl := Option.some.inj h; exact ⟨rfl, rfl⟩)

/-- Handling a message does not change when the client may send. -/
theorem doMsg_pace {e e' : EasyTcpClient MyClient} (h : MyClient.doMsg e = some e') :
    e'.ext.tRestTime = e.ext.tRestTime ∧ e'.ext.nSendCount = e.ext.nSendCount := by
  obtain ⟨c, -, h⟩ := Option.bind_eq_some_iff.mp h
  split at h
  · obtain ⟨m, hm, h⟩ := Option.bind_eq_some_iff.mp h
    obtain rfl := Option.some.inj h
    exact onNetMsg_pace hm
  · obtain rfl := Option.some.inj h
    exact ⟨rfl, rfl⟩

/-- Every event but `checkSend` leaves the time alone, and what it counts was paid for. -/
theorem next_pays {e : SessionEvent} (ht : s.next cfg e = some t)
    (h0 : 0 ≤ s.client.ext.nSendCount) (hcheck : ∀ dt, e ≠ .checkSend dt) :
    t.client.ext.tRestTime = s.client.ext.tRestTime ∧ 0 ≤ t.client.ext.nSendCount ∧
      t.client.ext.nSendCount + (if returned cfg s e > 0 then 1 else 0 : ℕ) ≤
        s.client.ext.nSendCount := by
  cases e with
  | sendTest login =>
      obtain ⟨r, hr, rfl⟩ := Option.map_eq_some_iff.mp ht
      have hret : returned cfg s (.sendTest login) = r.2 := by rw [returned, hr]; rfl
      rw [hret]
      exact sendTest_pays hr h0
  | checkSend dt => exact absurd rfl (hcheck dt)
  | clientMsg =>
      obtain ⟨client, hc, rfl⟩ := Option.map_eq_some_iff.mp ht
      obtain ⟨htime, hcount⟩ := doMsg_pace hc
      exact ⟨htime, hcount ▸ h0, by simp [returned, hcount]⟩
  | _ =>
      first
      | obtain rfl := Option.some.inj ht
        exact ⟨rfl, h0, by simp [returned]⟩
      | obtain ⟨_, -, rfl⟩ := Option.map_eq_some_iff.mp ht
        exact ⟨rfl, h0, by simp [returned]⟩

/-- A refill takes one period off. -/
theorem period_succ {x : ℤ} (hsleep : 0 < cfg.nSendSleep) :
    (x - cfg.nSendSleep) / cfg.nSendSleep + 1 = x / cfg.nSendSleep := by
  rw [Int.sub_ediv_of_dvd _ (dvd_refl _), Int.ediv_self hsleep.ne', sub_add_cancel]

/-- `checkSend` sets the count only when it takes a period off the time. -/
theorem checkSend_pays (hsleep : 0 < cfg.nSendSleep) (hmsg : 0 ≤ cfg.nMsg) {m : MyClient}
    (hrest : 0 ≤ m.tRestTime) (hcount : 0 ≤ m.nSendCount) {dt : ℤ} (hdt : 0 ≤ dt) (after : ℤ) :
    0 ≤ (m.checkSend cfg dt).1.tRestTime ∧ 0 ≤ (m.checkSend cfg dt).1.nSendCount ∧
      (m.checkSend cfg dt).1.nSendCount +
          cfg.nMsg * (((m.checkSend cfg dt).1.tRestTime + after) / cfg.nSendSleep) ≤
        m.nSendCount + cfg.nMsg * ((m.tRestTime + (dt + after)) / cfg.nSendSleep) := by
  rw [MyClient.checkSend]
  dsimp only
  split
  · have hperiod := period_succ (x := m.tRestTime + (dt + after)) hsleep
    have hshift : m.tRestTime + dt - cfg.nSendSleep + after =
        m.tRestTime + (dt + after) - cfg.nSendSleep := by omega
    refine ⟨by dsimp only; omega, hmsg, ?_⟩
    dsimp only
    rw [hshift, ← hperiod, mul_add, mul_one]
    omega
  · rw [add_assoc]
    exact ⟨by dsimp only; omega, hcount, le_rfl⟩

/-- What is in the count and in the time that is to come pays for what is sent. -/
theorem sendCount_le (hsleep : 0 < cfg.nSendSleep) (hmsg : 0 ≤ cfg.nMsg)
    {es : List SessionEvent} (hp : (system cfg).Path s es t) (hdt : ∀ e ∈ es, 0 ≤ e.dt)
    (hrest : 0 ≤ s.client.ext.tRestTime) (hcount : 0 ≤ s.client.ext.nSendCount) :
    sendCount cfg s es ≤ s.client.ext.nSendCount +
      cfg.nMsg * ((s.client.ext.tRestTime + elapsed es) / cfg.nSendSleep) := by
  induction hp with
  | nil s =>
      have hperiods : 0 ≤ (s.client.ext.tRestTime + elapsed []) / cfg.nSendSleep := by
        apply Int.ediv_nonneg _ hsleep.le
        simpa [elapsed] using hrest
      have hpos := Int.mul_nonneg hmsg hperiods
      simp only [sendCount, Nat.cast_zero]
      omega
  | @cons s t u e es ht hp ih =>
      have hnext : s.next cfg e = some t := ht
      have hrun : sendCount cfg s (e :: es) =
          (if returned cfg s e > 0 then 1 else 0) + sendCount cfg t es := by
        rw [sendCount, hnext]
      have helapsed : elapsed (e :: es) = e.dt + elapsed es := List.sum_cons
      have htail := ih fun e he => hdt e (List.mem_cons_of_mem _ he)
      rw [hrun, helapsed]
      by_cases hcheck : ∃ dt, e = .checkSend dt
      · obtain ⟨dt, rfl⟩ := hcheck
        obtain ⟨hr, hc, hle⟩ := checkSend_pays hsleep hmsg hrest hcount
          (hdt _ List.mem_cons_self) (elapsed es)
        obtain rfl := Option.some.inj hnext
        have hzero : returned cfg s (.checkSend dt) = 0 := rfl
        rw [hzero, if_neg (lt_irrefl 0), Nat.zero_add]
        exact (htail hr hc).trans hle
      · have hnot : ∀ dt, e ≠ .checkSend dt := fun dt he => hcheck ⟨dt, he⟩
        obtain ⟨htime, hc, hpays⟩ := next_pays hnext hcount hnot
        have hzero : e.dt = 0 := by
          cases e with
          | checkSend dt => exact absurd rfl (hnot dt)
          | _ => rfl
        have hle := htail (htime.symm ▸ hrest) hc
        rw [htime] at hle
        rw [hzero, zero_add]
        push_cast at hpays ⊢
        omega

/-- In every run in which time does not go back: the messages that a client sends which has none
left are at most `nMsg` for every full `nSendSleep` of its time. -/
theorem rate_kept (hsleep : 0 < cfg.nSendSleep) (hmsg : 0 ≤ cfg.nMsg)
    (hcount : s.client.ext.nSendCount = 0) (hrest : 0 ≤ s.client.ext.tRestTime)
    {es : List SessionEvent} (hp : (system cfg).Path s es t) (hdt : ∀ e ∈ es, 0 ≤ e.dt) :
    sendCount cfg s es ≤
      cfg.nMsg * ((s.client.ext.tRestTime + elapsed es) / cfg.nSendSleep) := by
  have hle := sendCount_le hsleep hmsg hp hdt hrest hcount.ge
  omega

/-- Seven milliseconds and two calls of `SendTest`. -/
def hasty : List SessionEvent := [.checkSend 7, .sendTest blank, .sendTest blank]

/-- One period has passed, and one message was sent. -/
theorem rate_kept_hasty : sendCount ⟨1, 5, false⟩ (connected 200) hasty = 1 ∧
    (∃ t, (system ⟨1, 5, false⟩).Path (connected 200) hasty t) ∧
      sendCount ⟨1, 5, false⟩ (connected 200) hasty ≤ (1 : ℤ) * ((0 + elapsed hasty) / 5) := by
  have hsome : (hasty.foldlM (next ⟨1, 5, false⟩) (connected 200)).isSome = true := by
    decide +kernel
  obtain ⟨t, ht⟩ := Option.isSome_iff_exists.mp hsome
  have hp : (system ⟨1, 5, false⟩).Path (connected 200) hasty t :=
    System.Path.of_next _ (fun _ _ _ h => h) ht
  refine ⟨by decide +kernel, ⟨t, hp⟩, ?_⟩
  exact rate_kept (by decide) (by decide) rfl le_rfl hp (by decide)

end Session

end CellNet
