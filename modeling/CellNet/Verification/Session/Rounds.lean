import CellNet.Verification.Session.Pacing
import CellNet.Verification.Session.Turns

/-! With `-checkSendBack` at most one message is under way in any run, it is never refused for
want of room, and every round of calls brings the answer home. -/

namespace CellNet

open Finset Library

namespace Session

variable {cfg : ClientConfig} {s t : Session} {c c' : CellClient}

/-! ### Rounds -/

/-- The calls of one round, none of which leaves bytes behind. -/
def Round (ms : List SessionEvent) : Prop :=
  ∃ (a d : ℤ) (b f : ℕ) (u : Locals), sizeofLogin ≤ a ∧ sizeofLogin ≤ b ∧ sizeofLogin ≤ d ∧
    sizeofLogin ≤ f ∧ ms = [.clientSend a, .serverRecv b, .serverMsg u, .serverSend d,
      .clientRecv f, .clientMsg]

/-- The place that a call of a round empties. -/
theorem Turn.sweep (h : s.Turn c) (hs : s.client.ext.bSend = true) {k : ℕ}
    (hp : Past k (s.places c)) {ms : List SessionEvent} (hr : Round ms) {e : SessionEvent}
    (hk : ms[k]? = some e) (he : s.next cfg e = some t) (hc : t.client.pClient = some c')
    (ht : t.client.ext.bSend = true) : t.places c' k = 0 := by
  have hsum := h.sum
  rw [if_pos hs] at hsum
  obtain ⟨a, d, b, f, u, ha, hb, hd, hf, rfl⟩ := hr
  rcases k with _ | _ | _ | _ | _ | _ | k
  · obtain rfl := Option.some.inj hk
    rw [Session.next, h.client.pClient] at he
    obtain rfl := Option.some.inj he
    obtain rfl := Option.some.inj hc
    exact congrArg List.length
      (CellClient.sendInto_all h.client.send h.client_roomy.sockfd (by omega) s.up)
  · obtain rfl := Option.some.inj hk
    obtain rfl := Option.some.inj he
    have hroom := h.server_roomy.recv
    exact congrArg List.length (CellClient.recvFrom_all h.server.recv (by omega) (by omega))
  · obtain rfl := Option.some.inj hk
    have h0 : c.sendBuff.content = [] := List.length_eq_zero_iff.mp (hp 0 (by decide))
    have h1 : s.up = [] := List.length_eq_zero_iff.mp (hp 1 (by decide))
    by_cases hlen : s.pClient.recvBuff.content.length < sizeofLogin
    · have hup := h.up
      rw [h0, h1, List.append_nil, List.append_nil] at hup
      rw [Session.next, h.server.waits hlen h.up] at he
      obtain rfl := Option.some.inj he
      have hnil : s.pClient.recvBuff.content = [] := hup.nil_or_long.resolve_right (by omega)
      exact congrArg List.length hnil
    · have hempty : s.pClient.sendBuff.content = [] := List.length_eq_zero_iff.mp (by omega)
      obtain ⟨r, hr, -, -, hrecv, -⟩ :=
        h.server.answers (u := u) h.server_roomy h.back h.up (by omega) hempty
      rw [Session.next, hr] at he
      obtain rfl := Option.some.inj he
      show r.2.recvBuff.content.length = 0
      omega
  · obtain rfl := Option.some.inj hk
    obtain rfl := Option.some.inj he
    exact congrArg List.length
      (CellClient.sendInto_all h.server.send h.server_roomy.sockfd (by omega) s.down)
  · obtain rfl := Option.some.inj hk
    rw [Session.next, h.client.pClient] at he
    obtain rfl := Option.some.inj he
    obtain rfl := Option.some.inj hc
    have hroom := h.client_roomy.recv
    exact congrArg List.length (CellClient.recvFrom_all h.client.recv (by omega) (by omega))
  · obtain rfl := Option.some.inj hk
    have hlen : c.recvBuff.content.length = sizeofLogin := by
      have h0 : c.sendBuff.content.length = 0 := hp 0 (by decide)
      have h1 : s.up.length = 0 := hp 1 (by decide)
      have h2 : s.pClient.recvBuff.content.length = 0 := hp 2 (by decide)
      have h3 : s.pClient.sendBuff.content.length = 0 := hp 3 (by decide)
      have h4 : s.down.length = 0 := hp 4 (by decide)
      omega
    obtain ⟨e', -, hd, -, hb, -⟩ := h.client.answered h.client_roomy h.down hlen.ge
    rw [Session.next, hd] at he
    obtain rfl := Option.some.inj he
    rw [hb] at ht
    cases ht
  · cases hk

/-! ### Runs -/

/-- Buffers that hold a message, and a server that answers. -/
structure Equipped (s : Session) : Prop where
  client : ∀ c, s.client.pClient = some c → c.Roomy
  server : s.pClient.Roomy
  back : s.server.bSendBack = true

/-- The session of two programs that were just connected and are equipped. -/
def exchange (cfg : ClientConfig) : System Session SessionEvent where
  init s := s.Fresh ∧ s.Equipped
  step := (system cfg).step

theorem Fresh.turn (h : s.Fresh) (hs : s.Equipped) : ∃ c, s.Turn c := by
  obtain ⟨c, hc⟩ := h.inv
  refine ⟨c, hc, hs.client c hc.client.pClient, hs.server, hs.back, ?_⟩
  obtain ⟨d, tRestTime, hclient, -, -, hsend, hrecv⟩ := h.client
  obtain rfl : d = c := Option.some.inj (by rw [← hc.client.pClient, hclient])
  have hb : s.client.ext.bSend = false := by rw [hclient]; rfl
  simp [sum_range_succ, places, hb, hsend, hrecv, h.up, h.down, h.sendEmpty, h.recvEmpty]

theorem exchange_invariant (hcfg : cfg.bCheckSendBack = true) :
    (exchange cfg).Invariant fun s => ∃ c, s.Turn c where
  init _ h := h.1.turn h.2
  step s e t h he := by
    obtain ⟨c, hc⟩ := h
    obtain ⟨c', ht, -⟩ := hc.next hcfg he
    exact ⟨c', ht⟩

theorem Turn.defined (h : s.Turn c) (cfg : ClientConfig) (e : SessionEvent) :
    ∃ t, s.next cfg e = some t := by
  have hsum := h.sum
  have hle : (if s.client.ext.bSend then sizeofLogin else 0) ≤ sizeofLogin := by
    split
    · exact le_rfl
    · exact Nat.zero_le _
  have hsize : sizeofLogin = 100 := rfl
  apply h.toInv.defined
  cases e with
  | sendTest login =>
      intro d hd
      obtain rfl := Option.some.inj (h.client.pClient.symm.trans hd)
      have hlen := CellBuffer.length_content h.client.send
      omega
  | serverMsg u =>
      have hlen := CellBuffer.length_content h.server.send
      show s.pClient.sendBuff.nLast + sizeofLogin ≤ 2147483647
      omega
  | _ => trivial

/-- Whatever calls are made in whatever order, they can be made. -/
theorem Turn.run (hcfg : cfg.bCheckSendBack = true) (h : s.Turn c) (ls : List SessionEvent) :
    ∃ t, (exchange cfg).Path s ls t := by
  induction ls generalizing s c with
  | nil => exact ⟨s, .nil s⟩
  | cons e ls ih =>
      obtain ⟨t, ht⟩ := h.defined cfg e
      obtain ⟨c', hturn, -⟩ := h.next hcfg ht
      obtain ⟨u, hu⟩ := ih hturn
      exact ⟨u, .cons ht hu⟩

/-- What the client knows from `_bSend`: whether a message or its answer is under way. -/
structure TurnTaken (s : Session) (c : CellClient) : Prop where
  waiting : s.client.ext.bSend = true → c.sendBuff.content.length + s.up.length +
    s.pClient.recvBuff.content.length + s.pClient.sendBuff.content.length + s.down.length +
      c.recvBuff.content.length = sizeofLogin
  idle : s.client.ext.bSend = false → c.sendBuff.content = [] ∧ s.up = [] ∧
    s.pClient.recvBuff.content = [] ∧ s.pClient.sendBuff.content = [] ∧ s.down = [] ∧
      c.recvBuff.content = []
  counted : s.client.ext.bSend = false → s.pClient.nRecvMsgID = s.client.ext.nSendMsgID ∧
    s.client.ext.nRecvMsgID = s.pClient.nSendMsgID

theorem Turn.taken (h : s.Turn c) : s.TurnTaken c := by
  have hsum := h.sum
  have hidle : s.client.ext.bSend = false → c.sendBuff.content = [] ∧ s.up = [] ∧
      s.pClient.recvBuff.content = [] ∧ s.pClient.sendBuff.content = [] ∧ s.down = [] ∧
        c.recvBuff.content = [] := by
    intro hb
    rw [hb, if_neg Bool.false_ne_true] at hsum
    simpa [and_assoc] using hsum
  constructor
  · intro hb
    rw [hsum, if_pos hb]
  · exact hidle
  · intro hb
    obtain ⟨h0, h1, h2, h3, h4, h5⟩ := hidle hb
    have hup := h.up
    have hdown := h.down
    rw [h0, h1, h2] at hup
    rw [h3, h4, h5] at hdown
    exact ⟨hup.of_nil, hdown.of_nil⟩

/-- With `-checkSendBack`, and `-checkMsgID` at both ends, at most one message is under way in any
run, the numbers of both sides agree in between, and the next calls can be any. -/
theorem turns_taken (hcfg : cfg.bCheckSendBack = true) (h : (exchange cfg).Reachable s) :
    (∃ c, s.client.pClient = some c ∧ s.TurnTaken c) ∧
      ∀ ls, ∃ t, (exchange cfg).Path s ls t := by
  obtain ⟨c, hc⟩ := (exchange_invariant hcfg).reachable h
  exact ⟨⟨c, hc.client.pClient, hc.taken⟩, hc.run hcfg⟩

/-- In every run that has the calls of a round among its calls, in this order, the client stops
waiting. -/
theorem answer_returns (hcfg : cfg.bCheckSendBack = true) (h : (exchange cfg).Reachable s)
    {ms ls : List SessionEvent} (hm : Round ms) (hs : ms.Sublist ls)
    (hp : (exchange cfg).Path s ls t) : ∃ ls₁ ls₂ u, ls = ls₁ ++ ls₂ ∧
      (exchange cfg).Path s ls₁ u ∧ u.client.ext.bSend = false := by
  obtain ⟨c, hc⟩ := (exchange_invariant hcfg).reachable h
  let P : ℕ → Session → Prop := fun k s =>
    ∃ c, s.Turn c ∧ (s.client.ext.bSend = true → Past k (s.places c))
  have hkeep : ∀ k s e t, P k s → ¬ s.client.ext.bSend = false → (exchange cfg).step s e t →
      P k t := by
    intro k s e t ⟨c, hc, hpast⟩ hb he
    obtain ⟨c', ht, hon⟩ := hc.next hcfg he
    have hbusy := Bool.eq_true_of_not_eq_false hb
    exact ⟨c', ht, fun hb' => hon hbusy hb' k (hpast hbusy)⟩
  have hnext : ∀ k s e t, ms[k]? = some e → P k s → ¬ s.client.ext.bSend = false →
      (exchange cfg).step s e t → P (k + 1) t := by
    intro k s e t hk ⟨c, hc, hpast⟩ hb he
    obtain ⟨c', ht, hon⟩ := hc.next hcfg he
    have hbusy := Bool.eq_true_of_not_eq_false hb
    exact ⟨c', ht, fun hb' => (hon hbusy hb' k (hpast hbusy)).succ
      (hc.sweep hbusy (hpast hbusy) hm hk he ht.client.pClient hb')⟩
  have hlen : ms.length = 6 := by
    obtain ⟨-, -, -, -, -, -, -, -, -, rfl⟩ := hm
    rfl
  have hstart : P 0 s := ⟨c, hc, fun _ j hj => absurd hj (Nat.not_lt_zero j)⟩
  have hend := hp.stages hkeep hnext (Nat.zero_le _) hs hstart
  rw [hlen] at hend
  rcases hend with ⟨c', ht, hpast⟩ | hfound
  · refine ⟨ls, [], t, (List.append_nil ls).symm, hp, ?_⟩
    by_contra hb
    have hbusy := Bool.eq_true_of_not_eq_false hb
    have htotal := ht.total
    have hzero : ∑ j ∈ range 6, t.places c' j = 0 := (hpast hbusy).sum_eq_zero
    rw [hzero, if_pos hbusy] at htotal
    exact absurd htotal (by decide)
  · exact hfound

/-- The client has sent one login. -/
def asking : List SessionEvent := [.checkSend 0, .sendTest blank]

/-- One round of calls. -/
def round (u : Locals) : List SessionEvent :=
  [.clientSend 100, .serverRecv 100, .serverMsg u, .serverSend 100, .clientRecv 100, .clientMsg]

theorem round_round (u : Locals) : Round (round u) :=
  ⟨100, 100, 100, 100, u, le_rfl, le_rfl, le_rfl, le_rfl, rfl⟩

theorem equipped_connected : (connected 100).Equipped := by
  constructor
  · intro c hc
    obtain rfl := Option.some.inj hc
    exact ⟨by decide, by decide, by decide⟩
  · exact ⟨by decide, by decide, by decide⟩
  · rfl

theorem exchange_connected : (exchange ⟨1, 0, true⟩).Reachable (connected 100) :=
  .init ⟨fresh_connected (by decide), equipped_connected⟩

/-- A round is over, and the next login is under way in two parts. -/
def talking : List SessionEvent :=
  asking ++ round (MyServer.filled 0) ++ asking ++ [.clientSend 40, .serverRecv 30]

theorem turns_taken_talking :
    ∃ s, talking.foldlM (next ⟨1, 0, true⟩) (connected 100) = some s ∧
      s.client.ext.nSendMsgID = 3 ∧ s.up.length = 10 ∧
      (∃ c, s.client.pClient = some c ∧ s.TurnTaken c) ∧
        ∀ ls, ∃ t, (exchange ⟨1, 0, true⟩).Path s ls t := by
  have hrun : (talking.foldlM (next ⟨1, 0, true⟩) (connected 100)).map (fun s =>
      (s.client.ext.nSendMsgID, s.up.length)) = some (3, 10) := by decide +kernel
  obtain ⟨s, hs, heq⟩ := Option.map_eq_some_iff.mp hrun
  obtain ⟨hsend, hup⟩ := Prod.mk.inj heq
  have hreach : (exchange ⟨1, 0, true⟩).Reachable s :=
    exchange_connected.path (System.Path.of_next _ (fun _ _ _ h => h) hs)
  exact ⟨s, hs, hsend, hup, turns_taken rfl hreach⟩

/-- A run in which the client waits. -/
theorem asking_reachable : ∃ s, (exchange ⟨1, 0, true⟩).Reachable s ∧
    s.client.ext.bSend = true := by
  have hb : ((asking.foldlM (next ⟨1, 0, true⟩) (connected 100)).map
      fun s => s.client.ext.bSend) = some true := by decide +kernel
  obtain ⟨s, hs, hb⟩ := Option.map_eq_some_iff.mp hb
  exact ⟨s, exchange_connected.path (System.Path.of_next _ (fun _ _ _ h => h) hs), hb⟩

theorem answer_returns_asking : ∃ s t, s.client.ext.bSend = true ∧
    (exchange ⟨1, 0, true⟩).Path s (.checkSend 0 :: round (MyServer.filled 0)) t ∧
      ∃ ls₁ ls₂ u, .checkSend 0 :: round (MyServer.filled 0) = ls₁ ++ ls₂ ∧
        (exchange ⟨1, 0, true⟩).Path s ls₁ u ∧ u.client.ext.bSend = false := by
  obtain ⟨s, hs, hb⟩ := asking_reachable
  obtain ⟨c, hc⟩ := (exchange_invariant rfl).reachable hs
  obtain ⟨t, ht⟩ : ∃ t, (exchange ⟨1, 0, true⟩).Path s
      (.checkSend 0 :: round (MyServer.filled 0)) t := hc.run rfl _
  exact ⟨s, t, hb, ht, answer_returns rfl hs (round_round (MyServer.filled 0))
    (List.sublist_cons_self _ _) ht⟩

end Session

end CellNet
