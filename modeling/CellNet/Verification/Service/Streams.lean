import CellNet.Verification.Loop.Healthy
import CellNet.Verification.Service.Lives

/-! The two byte streams of a client over its life: what is handled is parsed from what arrived, and
what is sent is the front of the replies. -/

namespace CellNet

open Library Worker

variable {π σ : Type}

/-! ### The buffers of one client -/

/-- Both buffers are sound and have the sizes they were made with. -/
structure CellClient.Sized (nSendBuffSize nRecvBuffSize : ℤ) (c : CellClient) : Prop where
  send : c.sendBuff.Valid
  recv : c.recvBuff.Valid
  sendSize : c.sendBuff.nSize = nSendBuffSize
  recvSize : c.recvBuff.nSize = nRecvBuffSize

/-- The handler keeps the send buffer sound, and puts at most one reply that `R` allows behind what
is still to be sent. -/
def Handler.Replies (onNetMsg : Handler σ) (nSendBuffSize nRecvBuffSize : ℤ)
    (R : Msg → List UInt8 → Prop) : Prop :=
  ∀ s c, c.Sized nSendBuffSize nRecvBuffSize → c.hasMsg →
    (onNetMsg s c c.frontMsg).2.sendBuff.Valid ∧
      (onNetMsg s c c.frontMsg).2.sendBuff.nSize = nSendBuffSize ∧
      ∃ out, (onNetMsg s c c.frontMsg).2.sendBuff.content = c.sendBuff.content ++ out ∧
        (out = [] ∨ R (frontMessage c) out)

namespace CellClient

variable {nSendBuffSize nRecvBuffSize : ℤ} {c d : CellClient}

/-- Buffers that are the same but for what they hold. -/
theorem Sized.congr (h : c.Sized nSendBuffSize nRecvBuffSize) (hs : d.sendBuff = c.sendBuff)
    (hr : d.recvBuff = c.recvBuff) : d.Sized nSendBuffSize nRecvBuffSize where
  send := hs ▸ h.send
  recv := hr ▸ h.recv
  sendSize := hs ▸ h.sendSize
  recvSize := hr ▸ h.recvSize

theorem sized_new {id : ℤ} {sockfd : SOCKET} {sendBlock recvBlock : List UInt8}
    (hs : (sendBlock.length : ℤ) = nSendBuffSize) (hr : (recvBlock.length : ℤ) = nRecvBuffSize)
    (hsend : nSendBuffSize ≤ 2147483647) (hrecv : nRecvBuffSize ≤ 2147483647) :
    (CellClient.new id sockfd (.new nSendBuffSize sendBlock)
      (.new nRecvBuffSize recvBlock)).Sized nSendBuffSize nRecvBuffSize where
  send := CellBuffer.valid_new hs hsend
  recv := CellBuffer.valid_new hr hrecv
  sendSize := rfl
  recvSize := rfl

theorem arrives_some (c : CellClient) (recv : Option (List UInt8)) :
    c.arrives (some recv) = c.recvBuff.taken recv := by
  cases recv <;> simp [arrives, CellBuffer.taken]

/-- `RecvData` appends what arrived, unless the client is removed. -/
theorem recvOrLeave_spec (h : c.Sized nSendBuffSize nRecvBuffSize)
    {recv : Option (Option (List UInt8))}
    (hf : ((c.arrives recv).length : ℤ) ≤ c.recvBuff.nSize - c.recvBuff.nLast)
    (hr : c.recvOrLeave recv = some d) : d.Sized nSendBuffSize nRecvBuffSize ∧
      d.recvBuff.content = c.recvBuff.content ++ c.arrives recv ∧ d.sendBuff = c.sendBuff ∧
      d.sockfd = c.sockfd := by
  cases recv with
  | none =>
      obtain rfl := Option.some.inj hr
      simp [arrives, h]
  | some recv =>
      rw [recvOrLeave] at hr
      split at hr
      · cases hr
      · next hpos =>
          obtain rfl := Option.some.inj hr
          rw [arrives_some] at hf ⊢
          by_cases hs : c.recvBuff.nSize - c.recvBuff.nLast > 0
          · rw [CellBuffer.taken, if_pos hs] at hf
            obtain ⟨hv, hn, hc⟩ := CellBuffer.read4socket_spec h.recv recv hf
            exact ⟨⟨h.send, hv, h.sendSize, hn.trans h.recvSize⟩, hc, rfl, rfl⟩
          · refine absurd ?_ hpos
            simp [recvData, CellBuffer.read4socket_full hs]

/-- `SendDataReal` removes what it wrote, unless the client is removed. -/
theorem sendOrLeave_spec (h : c.Sized nSendBuffSize nRecvBuffSize) {send : Option ℤ}
    (hf : ∀ ret, send = some ret → ret ≤ c.sendBuff.nLast) (hs : c.sendOrLeave send = some d) :
    d.Sized nSendBuffSize nRecvBuffSize ∧ d.recvBuff = c.recvBuff ∧
      c.sendBuff.content =
        (send.map fun ret => c.sendBuff.wire c.sockfd ret).getD [] ++ d.sendBuff.content := by
  cases send with
  | none =>
      obtain rfl := Option.some.inj hs
      simp [h]
  | some ret =>
      rw [sendOrLeave] at hs
      split at hs
      · cases hs
      · obtain rfl := Option.some.inj hs
        obtain ⟨hv, hn, hc⟩ := CellBuffer.write2socket_spec h.send c.sockfd (hf ret rfl)
        exact ⟨⟨hv, h.recv, hn.trans h.sendSize, h.recvSize⟩, rfl, hc⟩

/-- What goes out is the front of what the client holds. -/
theorem sends_prefix (h : c.Sized nSendBuffSize nRecvBuffSize) {io : Io} (hf : io.Fits c) :
    c.sends io <+: c.sendBuff.content := by
  rw [sends]
  cases hr : c.recvOrLeave io.recv with
  | none => simp
  | some d =>
      obtain ⟨-, -, hsend, -⟩ := recvOrLeave_spec h hf.recv hr
      cases hs : io.send with
      | none => simp
      | some ret =>
          have hle := hf.send ret hs
          obtain ⟨-, -, hc⟩ := CellBuffer.write2socket_spec h.send d.sockfd hle
          simp [hsend, hc]

/-- A poll appends what arrived and removes what went out, unless the client is removed. -/
theorem serve_spec (h : c.Sized nSendBuffSize nRecvBuffSize) {io : Io} (hf : io.Fits c)
    (hs : io.serve c = some d) : d.Sized nSendBuffSize nRecvBuffSize ∧
      d.recvBuff.content = c.recvBuff.content ++ c.arrives io.recv ∧
      c.sendBuff.content = c.sends io ++ d.sendBuff.content := by
  obtain ⟨u, hu, hs⟩ := Option.bind_eq_some_iff.mp hs
  obtain ⟨hsized, hrecv, hsend, -⟩ := recvOrLeave_spec h hf.recv hu
  obtain ⟨hsized', hrecv', hcontent⟩ :=
    sendOrLeave_spec hsized (fun ret hret => by rw [hsend]; exact hf.send ret hret) hs
  refine ⟨hsized', by rw [hrecv', hrecv], ?_⟩
  rw [← hsend, hcontent, sends, hu]
  rfl

end CellClient

/-! ### The transcript of one client -/

namespace Transcript

variable {h : Transcript} {rest : List UInt8}

/-- The messages handled are those in front of the stream that arrived, with `rest` behind them. -/
def Parsed (h : Transcript) (rest : List UInt8) : Prop :=
  ∃ fs, h.dispatched = fs.map announced ∧ headerFraming.Consumes h.arrived fs rest

/-- What was pushed are replies that answer, in order, some of the messages handled. -/
def Answered (R : Msg → List UInt8 → Prop) (h : Transcript) : Prop :=
  ∃ asked replies, asked.Sublist h.dispatched ∧ List.Forall₂ R asked replies ∧
    h.pushed = replies.flatten

theorem Parsed.poll (hp : h.Parsed rest) (io : Io) (c : CellClient) :
    (h.poll io c).Parsed (rest ++ c.arrives io.recv) := by
  obtain ⟨fs, hfs, hc⟩ := hp
  exact ⟨fs, hfs, hc.extend _⟩

/-- The front message is the first frame of what is left. -/
theorem Parsed.handle {c d : CellClient} (hp : h.Parsed c.recvBuff.content)
    (hv : c.recvBuff.Valid) {n : ℕ} (hn : headerFraming.frame? c.recvBuff.content = some n) :
    (h.handle c d).Parsed (c.recvBuff.content.drop n) := by
  obtain ⟨fs, hfs, hc⟩ := hp
  refine ⟨fs ++ [c.recvBuff.content.take n], ?_, hc.append (.cons hn (.nil _))⟩
  simp [Transcript.handle, hfs, CellClient.frontMessage_eq hv hn]

/-- A message is answered by the last reply, or by none. -/
theorem Answered.handle {R : Msg → List UInt8 → Prop} (ha : h.Answered R) {c d : CellClient}
    {out : List UInt8} (ho : out = [] ∨ R (frontMessage c) out)
    (hp : (h.handle c d).pushed = h.pushed ++ out) : (h.handle c d).Answered R := by
  obtain ⟨asked, replies, hs, hr, hpushed⟩ := ha
  rcases ho with rfl | ho
  · refine ⟨asked, replies, hs.trans (List.sublist_append_left ..), hr, ?_⟩
    rw [hp, List.append_nil, hpushed]
  · refine ⟨asked ++ [frontMessage c], replies ++ [out], hs.append (.refl _),
      List.rel_append hr (.cons ho .nil), ?_⟩
    rw [hp, hpushed, List.flatten_append, List.flatten_singleton]

end Transcript

/-- The bytes that the handler put behind what was still to be sent. -/
theorem CellBuffer.drop_content {b b' : CellBuffer} (hb : b.Valid) {out : List UInt8}
    (hc : b'.content = b.content ++ out) :
    (b'.data.take b'.dataLen.toNat).drop b.dataLen.toNat = out := by
  change b'.content.drop b.nLast.toNat = out
  rw [hc, nLast_toNat hb, List.drop_left]

/-! ### One life -/

namespace Life

variable {onNetMsg : Handler σ} {nSendBuffSize nRecvBuffSize : ℤ} {R : Msg → List UInt8 → Prop}

/-- What was handled is parsed from what arrived; what went out is the front of what was pushed,
and a client that lives still holds the rest of both. -/
def Streams (nSendBuffSize nRecvBuffSize : ℤ) (R : Msg → List UInt8 → Prop) : Life → Prop
  | .unborn => True
  | .alive c h => c.Sized nSendBuffSize nRecvBuffSize ∧ h.Parsed c.recvBuff.content ∧
      h.Answered R ∧ h.pushed = h.wired ++ c.sendBuff.content
  | .gone h => (∃ rest, h.Parsed rest) ∧ h.Answered R ∧ h.wired <+: h.pushed

theorem streams_blank (nSendBuffSize nRecvBuffSize : ℤ) (R : Msg → List UInt8 → Prop) :
    Streams nSendBuffSize nRecvBuffSize R (.gone .blank) := by
  refine ⟨⟨[], [], rfl, ?_⟩, ⟨[], [], .refl _, .nil, rfl⟩, List.prefix_rfl⟩
  exact .nil []

variable {c d : CellClient} {h : Transcript}

theorem streams_poll (hs : Streams nSendBuffSize nRecvBuffSize R (.alive c h)) {io : Io}
    (hf : io.Fits c) : Streams nSendBuffSize nRecvBuffSize R
      ((io.serve c).elim (.gone (h.poll io c)) fun d => .alive d (h.poll io c)) := by
  obtain ⟨hsized, hparsed, hanswered, hpushed⟩ := hs
  cases he : io.serve c with
  | none =>
      refine ⟨⟨_, hparsed.poll io c⟩, hanswered, ?_⟩
      change h.wired ++ c.sends io <+: h.pushed
      rw [hpushed]
      exact (List.prefix_append_right_inj _).mpr (CellClient.sends_prefix hsized hf)
  | some d =>
      obtain ⟨hsized', hrecv, hsend⟩ := CellClient.serve_spec hsized hf he
      refine ⟨hsized', ?_, hanswered, ?_⟩
      · rw [hrecv]
        exact hparsed.poll io c
      · change h.pushed = h.wired ++ c.sends io ++ d.sendBuff.content
        rw [List.append_assoc, ← hsend, hpushed]

theorem streams_handle (hk : onNetMsg.KeepsRecv)
    (hR : onNetMsg.Replies nSendBuffSize nRecvBuffSize R) {ext : σ}
    (hs : Streams nSendBuffSize nRecvBuffSize R (.alive c h)) (hm : c.hasMsg = true) :
    Streams nSendBuffSize nRecvBuffSize R
      (.alive (msgBody onNetMsg (ext, c)).2 (h.handle c (msgBody onNetMsg (ext, c)).2)) := by
  obtain ⟨hsized, hparsed, hanswered, hpushed⟩ := hs
  obtain ⟨hsend, hsendSize, out, hout, hr⟩ := hR ext c hsized hm
  rw [CellClient.hasMsg, CellBuffer.hasMsg_eq hsized.recv, Option.isSome_iff_exists] at hm
  obtain ⟨n, hn⟩ := hm
  obtain ⟨hv, hsize, hc⟩ := msgBody_spec hk (x := (ext, c)) hsized.recv hn
  have hsame : (msgBody onNetMsg (ext, c)).2.sendBuff =
      (onNetMsg ext c c.frontMsg).2.sendBuff := by
    simp only [msgBody, CellClient.popFrontMsg]
    split <;> rfl
  have hnew : (h.handle c (msgBody onNetMsg (ext, c)).2).pushed = h.pushed ++ out := by
    rw [← CellBuffer.drop_content hsized.send hout, ← hsame]
    rfl
  refine ⟨⟨?_, hv, ?_, hsize.trans hsized.recvSize⟩, ?_, hanswered.handle hr hnew, ?_⟩
  · rw [hsame]
    exact hsend
  · rw [hsame]
    exact hsendSize
  · rw [hc]
    exact hparsed.handle hsized.recv hn
  · rw [hnew, hpushed, hsame, hout, List.append_assoc]
    rfl

theorem streams_invariant (hk : onNetMsg.KeepsRecv)
    (hR : onNetMsg.Replies nSendBuffSize nRecvBuffSize R) (hsend : nSendBuffSize ≤ 2147483647)
    (hrecv : nRecvBuffSize ≤ 2147483647) :
    (system onNetMsg nSendBuffSize nRecvBuffSize).Invariant
      (Streams nSendBuffSize nRecvBuffSize R) where
  init := by
    rintro l rfl
    trivial
  step := by
    intro l e l' hs he
    obtain ⟨hl, hn⟩ := he
    cases l with
    | unborn =>
        cases e with
        | born id sockfd sendBlock recvBlock =>
            obtain rfl := Option.some.inj hn
            refine ⟨CellClient.sized_new hl.1 hl.2 hsend hrecv, ⟨[], rfl, ?_⟩,
              ⟨[], [], .refl _, .nil, rfl⟩, ?_⟩
            · simpa [CellClient.new, Transcript.blank] using Framing.Consumes.nil []
            · simp [CellClient.new, Transcript.blank]
        | _ => cases hn
    | alive c h =>
        cases e with
        | born => cases hn
        | seat id =>
            obtain rfl := Option.some.inj hn
            exact ⟨hs.1.congr rfl rfl, hs.2⟩
        | checkHeart dt =>
            obtain rfl := Option.some.inj hn
            split
            · exact ⟨⟨_, hs.2.1⟩, hs.2.2.1, hs.2.2.2 ▸ List.prefix_append ..⟩
            · exact ⟨hs.1.congr rfl rfl, hs.2⟩
        | poll io =>
            obtain rfl := Option.some.inj hn
            exact streams_poll hs hl
        | handle ext =>
            simp only [next] at hn
            split at hn
            · next hm =>
                obtain rfl := Option.some.inj hn
                exact streams_handle hk hR hs hm
            · cases hn
    | gone h => cases e <;> cases hn

end Life

/-! ### Messages that are still to be handled -/

namespace ServerLoops

open Net

/-- Whoever has a complete message is still to be visited by its worker. -/
def Attentive (s : ServerLoops π σ) : Prop :=
  ∀ p b, s.server.net.recvBuff? p = some b → ¬ s.Pending p → b.hasMsg = false

/-- A step that spares the receive buffers. -/
theorem Attentive.spares {s s' : ServerLoops π σ} (h : s.Attentive)
    (hn : s.server.net.Spares s'.server.net) (hp : ∀ p, s.Pending p → s'.Pending p) :
    s'.Attentive := by
  intro p b hb hnp
  exact h p b (hn.recvBuff p b hb) fun hq => hnp (hp p hq)

variable {t : ServerT} {onNetMsg : Handler σ} {s s' : ServerLoops t.Poller σ}

theorem Attentive.accpet (h : s.Attentive) {cSock : SOCKET} {sendBlock recvBlock : List UInt8}
    {server : EasyTcpServer t.Poller σ}
    (ha : s.server.accpet cSock sendBlock recvBlock = some server) :
    Attentive { s with server := server } := by
  have hpending : ∀ p, s.Pending p → Pending { s with server := server } p :=
    fun p hp => hp.accpet ha
  rcases EasyTcpServer.accpet_cases ha with ⟨-, rfl | rfl⟩ | ⟨-, c, i, hc, rfl⟩
  · exact h
  · exact h.spares (spares_of_heap rfl) hpending
  · intro q b hq hnp
    have hview := recvBuff?_newClient s.server.net cSock
      (s.server.newClient cSock sendBlock recvBlock) q
    dsimp only at hq
    rw [hview] at hq
    split at hq
    · obtain rfl := Option.some.inj hq
      exact CellBuffer.hasMsg_new ..
    · exact h q b hq fun hp => hnp (hpending q hp)

theorem Attentive.doMsg (h : s.Attentive) {i : ℕ} (hd : Rounds onNetMsg s i s') :
    s'.Attentive := by
  cases hd with
  | done hpc =>
      refine h.spares (.refl _) ?_
      intro p hp
      exact hp.setPc hpc (fun k hk => absurd hk List.not_mem_nil) .test
  | @skip k rest c p pClient hpc hi hf hg hm =>
      intro q b hq hnp
      by_cases hpend : s.Pending q
      · obtain ⟨j, d, pcj, k', hj, hpcj, he, hk'⟩ := hpend
        by_cases hij : i = j
        · subst hij
          obtain rfl := Option.some.inj (hi.symm.trans hj)
          obtain rfl := Option.some.inj (hpc.symm.trans hpcj)
          rcases List.mem_cons.mp hk' with rfl | hk'
          · -- the client that has no message left
            have hq' := OrderedMap.find?_eq_some_iff.mpr he
            obtain rfl := Option.some.inj (hf.symm.trans hq')
            rw [recvBuff?, hg] at hq
            obtain rfl := Option.some.inj hq
            exact hm
          · exact absurd ⟨i, c, _, k', hj, getElem?_set_same hpc _, he, hk'⟩ hnp
        · exact absurd ⟨j, d, pcj, k', hj, (List.getElem?_set_ne hij).trans hpcj, he, hk'⟩ hnp
      · exact h q b hq hpend
  | @handle k rest c p pClient hpc hi hf hg hm =>
      intro q b hq hnp
      have hview := recvBuff?_setClient (n := s.server.net.onNetMsg) hg
        (msgBody onNetMsg (s.server.ext, pClient)).2 q
      dsimp only at hq
      rw [hview] at hq
      split at hq
      · next he =>
          refine absurd ⟨i, c, _, k, hi, hpc, ?_, List.mem_cons_self⟩ hnp
          exact he ▸ OrderedMap.find?_eq_some_iff.mp hf
      · exact h q b hq hnp

/-- Whoever was read from is visited next. -/
theorem Attentive.doNetEvent (h : s.Attentive) (hok : s.LoopsOk) {i : ℕ} {a : t.Answer}
    (hpc : s.pcs[i]? = some .doNetEvent) {c : CellServer t.Poller}
    (hi : s.server.cellServers[i]? = some c) (ha : t.Answers (s.server.net, c) a)
    {r : Worker t.Poller × Bool} (hd : t.doNetEvent (s.server.net, c) a = some r) :
    (s.put i r.1
      (if r.2 then .doMsg (r.1.2.clients.entries.map Prod.fst) else .left)).Attentive := by
  generalize hpc' : (if r.2 then LoopPc.doMsg (r.1.2.clients.entries.map Prod.fst) else .left) = pc'
  obtain ⟨others, waiters, ht, hid, -⟩ := hok.tables.worker hi
  obtain ⟨hshrinks, hleft⟩ := t.doNetEvent_readsBy ht ha hd
  intro p b hb hnp
  rcases hleft p b hb with ⟨hb, -⟩ | ⟨w₁, recv, b₀, hc, -, -, -⟩
  · exact h p b hb fun hp => hnp (hp.put hpc (fun _ => not_false) r.1 pc')
  · obtain ⟨⟨k, hk⟩, -⟩ := t.receives_found ht hid ha hc
    obtain ⟨w', b', hw, ht', -⟩ := t.doNetEvent_tables ht hid (hok.reports hi ha hd).1
    obtain rfl := Option.some.inj (hd.symm.trans hw)
    obtain ⟨client, hg, -⟩ := Option.map_eq_some_iff.mp hb
    obtain ⟨k', hk'⟩ := ht.seat_of_live ht' hshrinks.clientsBuff hk
      (Net.sockfd?_eq_some.mpr ⟨client, hg, rfl⟩)
    refine absurd ⟨i, w'.2, pc', k', cellServers_put hi .., pcs_put hpc .., hk', ?_⟩ hnp
    rw [← hpc']
    cases b' with
    | true => exact List.mem_map_of_mem hk'
    | false => trivial

theorem Attentive.next (h : s.Attentive) (hok : s.LoopsOk) {e : LoopEvent t.Answer}
    (hl : Legal t s e) (hn : next t onNetMsg s e = some s') : s'.Attentive := by
  cases next_cases hn with
  | accpet ha => exact h.accpet ha
  | stop =>
      refine h.spares (.refl _) ?_
      intro p hp
      exact hp.setPc hl (fun _ => not_false) .left
  | idle hi hw =>
      refine h.spares (t.drain_spares hw) ?_
      intro p hp
      exact hp.put hl (fun _ => not_false) _ .test
  | @busy i now c w hi hw =>
      refine h.spares (t.drain_spares hw) ?_
      intro p hp
      exact hp.put hl (fun _ => not_false) w .checkTime
  | @checkTime i now c w hi hw =>
      refine h.spares (checkTime_spares hw) ?_
      intro p hp
      exact hp.put hl (fun _ => not_false) w .doNetEvent
  | @doNetEvent i a c r hi hd => exact h.doNetEvent hok hl.1 hi (hl.2 c hi) hd
  | doMsg hd => exact h.doMsg hd

end ServerLoops

/-! ### All clients of a server -/

namespace ServedStreams

section Steps

variable {t : ServerT} {onNetMsg : Handler σ} {nSendBuffSize nRecvBuffSize : ℤ}
  {R : Msg → List UInt8 → Prop} {s : ServedStreams t.Poller σ}

theorem attentive_of_reachable (hk : onNetMsg.KeepsSock)
    (h : (system t onNetMsg nSendBuffSize nRecvBuffSize).Reachable s) : s.loops.Attentive := by
  refine (System.Invariant.reachable (P := fun s => s.loops.Attentive ∧ s.loops.LoopsOk)
    ⟨?_, ?_⟩ h).1
  · intro s hs
    obtain ⟨⟨n, nSend, nRecv, nMax, oldTime, poller, ext, hl⟩, -⟩ := hs
    rw [hl]
    refine ⟨?_, ServerLoops.start_loopsOk n nSend nRecv nMax oldTime poller ext⟩
    intro p b hb
    simp [Net.recvBuff?, EasyTcpServer.start, Net.new] at hb
  · intro s e s' hs he
    exact ⟨hs.1.next hs.2 he.1.1 he.1.2, hs.2.next hk he.1.1 he.1.2⟩

theorem streams_of_reachable (hk : onNetMsg.KeepsSock) (hr : onNetMsg.KeepsRecv)
    (hR : onNetMsg.Replies nSendBuffSize nRecvBuffSize R) (hsend : nSendBuffSize ≤ 2147483647)
    (hrecv : nRecvBuffSize ≤ 2147483647)
    (h : (system t onNetMsg nSendBuffSize nRecvBuffSize).Reachable s) (p : Ptr) :
    (s.life p).Streams nSendBuffSize nRecvBuffSize R := by
  obtain ⟨l, hl, -, rfl⟩ := (life_simulation hk p).reachable h
  exact (Life.streams_invariant hr hR hsend hrecv).reachable hl

theorem blank_of_reachable (hk : onNetMsg.KeepsSock)
    (h : (system t onNetMsg nSendBuffSize nRecvBuffSize).Reachable s) (p : Ptr) :
    s.loops.server.net.heap.next ≤ p → s.transcripts p = .blank := by
  obtain ⟨l, -, hok, -⟩ := (life_simulation hk p).reachable h
  exact hok.blank p

/-- What goes for every client, also for one that is gone. -/
theorem transcript_of_reachable (hk : onNetMsg.KeepsSock) (hr : onNetMsg.KeepsRecv)
    (hR : onNetMsg.Replies nSendBuffSize nRecvBuffSize R) (hsend : nSendBuffSize ≤ 2147483647)
    (hrecv : nRecvBuffSize ≤ 2147483647)
    (h : (system t onNetMsg nSendBuffSize nRecvBuffSize).Reachable s) (p : Ptr) :
    (∃ rest, (s.transcripts p).Parsed rest) ∧ (s.transcripts p).Answered R ∧
      (s.transcripts p).wired <+: (s.transcripts p).pushed := by
  have hs := streams_of_reachable hk hr hR hsend hrecv h p
  rw [life] at hs
  cases hc : s.loops.server.net.heap.get? p with
  | none =>
      rw [hc] at hs
      dsimp only at hs
      split at hs
      · exact hs
      · next hp =>
          rw [blank_of_reachable hk h p (not_lt.mp hp)]
          exact Life.streams_blank nSendBuffSize nRecvBuffSize R
  | some c =>
      rw [hc] at hs
      obtain ⟨-, hparsed, hanswered, hpushed⟩ := hs
      exact ⟨⟨_, hparsed⟩, hanswered, _, hpushed.symm⟩

/-- In every run of the server, whatever the other clients, the other workers and the kernel do:
the messages of a client that were handled are, in order, those in front of the stream that arrived
from it, and all of them unless its worker is yet to visit it; and what went out to it is the front
of the replies to some of them, in order, of which it still holds the rest. -/
theorem transcripts_kept (hk : onNetMsg.KeepsSock) (hr : onNetMsg.KeepsRecv)
    (hR : onNetMsg.Replies nSendBuffSize nRecvBuffSize R) (hsend : nSendBuffSize ≤ 2147483647)
    (hrecv : nRecvBuffSize ≤ 2147483647)
    (h : (system t onNetMsg nSendBuffSize nRecvBuffSize).Reachable s) (p : Ptr) :
    (∃ rest, (s.transcripts p).Parsed rest) ∧ (s.transcripts p).Answered R ∧
      (s.transcripts p).wired <+: (s.transcripts p).pushed ∧
      ∀ c, s.loops.server.net.heap.get? p = some c →
        (s.transcripts p).pushed = (s.transcripts p).wired ++ c.sendBuff.content ∧
        (s.transcripts p).Parsed c.recvBuff.content ∧
        (¬ s.loops.Pending p → (s.transcripts p).dispatched =
          (headerFraming.parse (s.transcripts p).arrived).1.map announced) := by
  obtain ⟨hrest, hanswered, hwired⟩ := transcript_of_reachable hk hr hR hsend hrecv h p
  refine ⟨hrest, hanswered, hwired, ?_⟩
  intro c hc
  have hs := streams_of_reachable hk hr hR hsend hrecv h p
  rw [life_some hc] at hs
  obtain ⟨hsized, hparsed, -, hpushed⟩ := hs
  refine ⟨hpushed, hparsed, ?_⟩
  intro hnp
  have hm := attentive_of_reachable hk h p c.recvBuff (by simp [Net.recvBuff?, hc]) hnp
  rw [CellBuffer.hasMsg_eq hsized.recv, Option.isSome_eq_false_iff,
    Option.isNone_iff_eq_none] at hm
  obtain ⟨fs, hfs, hcons⟩ := hparsed
  rw [hfs, Framing.Parses.parse_eq ⟨hcons, hm⟩]

end Steps

theorem transcripts_kept_heard5 :
    (heard5.transcripts 0).arrived = [4, 0, 7, 0, 4, 0] ∧
      (heard5.transcripts 0).dispatched = [(4, [4, 0, 7, 0])] ∧
      (heard5.transcripts 0).dispatched =
        (headerFraming.parse (heard5.transcripts 0).arrived).1.map announced := by
  have hreplies : EasyTcpServer.quiet.Replies 8 8 fun _ _ => False := by
    intro s c hc _
    exact ⟨hc.send, hc.sendSize, [], (List.append_nil _).symm, .inl rfl⟩
  have hclient : (heard5.loops.server.net.heap.get? 0).isSome = true := rfl
  obtain ⟨c, hc⟩ := Option.isSome_iff_exists.mp hclient
  have hkept := transcripts_kept (fun _ _ _ => rfl) (fun _ _ _ => rfl) hreplies (by decide)
    (by decide) heard5_reachable 0
  refine ⟨rfl, rfl, (hkept.2.2.2 c hc).2.2 ?_⟩
  intro hpending
  obtain ⟨i, d, pc, k, -, hpc, -, hk⟩ := hpending
  have hpcs : heard5.loops.pcs = [.test] := rfl
  obtain rfl := List.mem_singleton.mp (hpcs ▸ List.mem_of_getElem? hpc)
  exact hk

end ServedStreams

end CellNet
