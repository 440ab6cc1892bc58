import CellNet.Verification.Messages.Semantics

/-! When the message loops end. The length of a message is chosen by the peer; a length
of zero at the front of the buffer is dispatched again and again. -/

namespace CellNet

open Library

variable {σ : Type*}

/-- The loop of `CellServer::DoMsg` ends after at most `nLast` iterations, each of which
lowers the fill level of the receive buffer. -/
def ServerLoopEnds (onNetMsg : Handler σ) (x : σ × CellClient) : Prop :=
  ∃ (n : ℕ) (y : σ × CellClient), (n : ℤ) ≤ x.2.recvBuff.nLast ∧
    Whiles (fun x => some x.2.hasMsg)
      (fun x y => msgBody onNetMsg x = y ∧ y.2.recvBuff.nLast < x.2.recvBuff.nLast) n x y

/-- The fill level of the receive buffer of a connected `EasyTcpClient`. -/
def EasyTcpClient.nLast (e : EasyTcpClient σ) : ℤ :=
  (e.pClient.map fun c => c.recvBuff.nLast).getD 0

/-- The same for the loop of `EasyTcpClient::DoMsg`. -/
def ClientLoopEnds (onNetMsg : EasyTcpClient σ → List UInt8 → EasyTcpClient σ)
    (e : EasyTcpClient σ) : Prop :=
  ∃ (n : ℕ) (e' : EasyTcpClient σ), (n : ℤ) ≤ e.nLast ∧
    Whiles EasyTcpClient.hasMsg
      (fun e e' => EasyTcpClient.msgBody onNetMsg e = some e' ∧ e'.nLast < e.nLast) n e e'

theorem serverLoop_popsFrames {onNetMsg : Handler σ} (hk : onNetMsg.KeepsRecv) :
    headerFraming.PopsFrames (fun x : σ × CellClient => x.2.recvBuff.Valid)
      (fun x => x.2.recvBuff.content) (fun x => x.2.recvBuff.nLast)
      (fun x => some x.2.hasMsg) (fun x y => msgBody onNetMsg x = y) where
  size hx := (CellBuffer.length_content hx).symm
  test_eq hx := congrArg some (CellBuffer.hasMsg_eq hx)
  total _ _ := ⟨_, rfl⟩
  pops := by
    rintro x y n hx hn rfl
    obtain ⟨hv, _, hc⟩ := msgBody_spec hk hx hn
    exact ⟨hv, hc⟩

/-- The client object is present and its receive buffer is well formed. -/
def EasyTcpClient.Ready (e : EasyTcpClient σ) : Prop :=
  ∃ c, e.pClient = some c ∧ c.recvBuff.Valid

/-- The bytes held by a connected `EasyTcpClient`. -/
def EasyTcpClient.content (e : EasyTcpClient σ) : List UInt8 :=
  (e.pClient.map fun c => c.recvBuff.content).getD []

theorem clientLoop_popsFrames {onNetMsg : EasyTcpClient σ → List UInt8 → EasyTcpClient σ}
    (hk : EasyTcpClient.KeepsRecv onNetMsg) :
    headerFraming.PopsFrames EasyTcpClient.Ready EasyTcpClient.content EasyTcpClient.nLast
      EasyTcpClient.hasMsg (fun e e' => EasyTcpClient.msgBody onNetMsg e = some e') where
  size := by
    rintro e ⟨c, hc, hv⟩
    simp only [EasyTcpClient.nLast, EasyTcpClient.content, hc, Option.map_some, Option.getD_some]
    exact (CellBuffer.length_content hv).symm
  test_eq := by
    rintro e ⟨c, hc, hv⟩
    simp only [EasyTcpClient.hasMsg, EasyTcpClient.content, hc, Option.map_some,
      Option.getD_some]
    exact congrArg some (CellBuffer.hasMsg_eq hv)
  total := by
    rintro e n ⟨c, hc, _⟩ _
    obtain ⟨c', hc', _⟩ := hk e c c.frontMsg hc
    exact ⟨{ onNetMsg e c.frontMsg with pClient := some c'.popFrontMsg },
      by simp only [EasyTcpClient.msgBody, hc, hc']⟩
  pops := by
    rintro e e' n ⟨c, hc, hv⟩ hn hb
    obtain ⟨c', hc', hr⟩ := hk e c c.frontMsg hc
    simp only [EasyTcpClient.content, hc, Option.map_some, Option.getD_some] at hn ⊢
    obtain rfl : { onNetMsg e c.frontMsg with pClient := some c'.popFrontMsg } = e' := by
      simpa only [EasyTcpClient.msgBody, hc, hc', Option.some.injEq] using hb
    obtain ⟨hv', _, hcont⟩ := CellClient.popFrontMsg_spec (c := c') (hr ▸ hv) (hr ▸ hn)
    exact ⟨⟨_, rfl, hv'⟩, hr ▸ hcont⟩

/-- Both message loops end, whatever the handlers do outside the receive buffer,
exactly when no zero `dataLength` stands at a message boundary of the held bytes. -/
theorem messageLoops_end_iff {onServer : Handler σ} (hs : onServer.KeepsRecv)
    {onClient : EasyTcpClient σ → List UInt8 → EasyTcpClient σ}
    (hc : EasyTcpClient.KeepsRecv onClient) {c : CellClient} (hv : c.recvBuff.Valid)
    (s : σ) {e : EasyTcpClient σ} (he : e.pClient = some c) :
    (ServerLoopEnds onServer (s, c) ↔ headerFraming.Progress c.recvBuff.content) ∧
      (ClientLoopEnds onClient e ↔ headerFraming.Progress c.recvBuff.content) := by
  refine ⟨(serverLoop_popsFrames hs).ends_iff hv, ?_⟩
  have hx : e.content = c.recvBuff.content := by
    simp only [EasyTcpClient.content, he, Option.map_some, Option.getD_some]
  exact hx ▸ (clientLoop_popsFrames hc).ends_iff ⟨c, he, hv⟩

/-- Once an empty message stands at a boundary, no number of iterations leaves the loop. -/
theorem serverLoop_hangs {onNetMsg : Handler σ} (hk : onNetMsg.KeepsRecv)
    {x : σ × CellClient} (hv : x.2.recvBuff.Valid)
    (hp : ¬ headerFraming.Progress x.2.recvBuff.content) (n : ℕ) (y : σ × CellClient) :
    ¬ Whiles (fun x => some x.2.hasMsg) (fun x y => msgBody onNetMsg x = y) n x y := by
  intro hw
  obtain ⟨ms, hms⟩ := (serverLoop_popsFrames hk).parses hw hv
  exact hp ((Framing.progress_iff _).mpr ⟨ms, _, hms⟩)

/-- A client that has received `bytes`, with a buffer of exactly that size. -/
def received (bytes : List UInt8) : CellClient :=
  .new 1 5 (.new 0 []) ⟨bytes, bytes.length, bytes.length, 0⟩

theorem messageLoops_end_frame :
    (ServerLoopEnds (fun s c _ => (s, c)) ((), received [4, 0, 7, 0]) ↔
        headerFraming.Progress [4, 0, 7, 0]) ∧
      (ClientLoopEnds (fun e _ => e) ⟨some (received [4, 0, 7, 0]), true, ()⟩ ↔
        headerFraming.Progress [4, 0, 7, 0]) :=
  messageLoops_end_iff (fun _ _ _ => rfl) (fun _ c _ h => ⟨c, h, rfl⟩)
    ⟨by decide, by decide, by decide, by decide⟩ () rfl

/-- Four zero bytes from the peer are an empty message at the front of the buffer. -/
theorem messageLoops_hang :
    ¬ ServerLoopEnds (fun s c _ => (s, c)) ((), received [0, 0, 0, 0]) ∧
      ¬ ClientLoopEnds (fun e _ => e) ⟨some (received [0, 0, 0, 0]), true, ()⟩ := by
  have hv : (received [0, 0, 0, 0]).recvBuff.Valid :=
    ⟨by decide, by decide, by decide, by decide⟩
  have hz : ¬ headerFraming.Progress [0, 0, 0, 0] := fun h => h 0 .zero (by decide)
  constructor
  · intro h
    exact hz ((serverLoop_popsFrames (fun _ _ _ => rfl)).ends_iff hv |>.mp h)
  · intro h
    exact hz ((clientLoop_popsFrames (fun _ c _ h => ⟨c, h, rfl⟩)).ends_iff ⟨_, rfl, hv⟩ |>.mp h)

end CellNet
