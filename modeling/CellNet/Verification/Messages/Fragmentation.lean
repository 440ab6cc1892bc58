import CellNet.Model.Link
import CellNet.Verification.Messages.Semantics

/-! Receiving in pieces agrees with parsing the received bytes as a whole, also for
lengths shorter than a header and for messages that have not arrived completely. -/

namespace CellNet.Receiver

open Library

variable {σ : Type*} {onNetMsg : Handler σ} {r : Receiver σ} {b : List UInt8}

/-- A client that has received nothing of the `b` a peer sends. -/
structure Awaits (r : Receiver σ) (b : List UInt8) : Prop where
  valid : r.client.recvBuff.Valid
  empty : r.client.recvBuff.content = []
  channel : r.channel = b
  delivered : r.delivered = []

/-- The frames `fs` were split off the bytes `got` received so far, and the buffer holds
everything behind them. -/
structure Tracks (r : Receiver σ) (b got : List UInt8) (fs : List (List UInt8)) : Prop where
  valid : r.client.recvBuff.Valid
  split : b = got ++ r.channel
  delivered : r.delivered = fs.map announced
  consumes : headerFraming.Consumes got fs r.client.recvBuff.content

theorem Awaits.tracks (h : r.Awaits b) : r.Tracks b [] [] :=
  ⟨h.valid, h.channel.symm, h.delivered, h.empty ▸ .nil _⟩

/-- `RecvData` moves a piece of the channel behind the bytes already held. -/
theorem recv_spec (onNetMsg : Handler σ) (h : r.client.recvBuff.Valid) (k : ℕ) :
    ∃ r', r.step onNetMsg (.recv k) = some r' ∧ r'.client.recvBuff.Valid ∧
      r'.client.recvBuff.nSize = r.client.recvBuff.nSize ∧
      r'.client.recvBuff.content = r.client.recvBuff.content ++ r.chunk k ∧
      r.channel = r.chunk k ++ r'.channel ∧ r'.delivered = r.delivered := by
  have hf := h.fits
  have hl : ((r.chunk k).length : ℤ) ≤ r.client.recvBuff.nSize - r.client.recvBuff.nLast := by
    rw [chunk, List.length_take]
    omega
  have ht : r.client.recvBuff.taken (some (r.chunk k)) = r.chunk k := by
    rw [CellBuffer.taken]
    split
    · rfl
    · have hz : (r.chunk k).length = 0 := by omega
      exact (List.length_eq_zero_iff.mp hz).symm
  obtain ⟨hv, hs, hc⟩ := CellBuffer.read4socket_spec h (some (r.chunk k)) hl
  rw [ht] at hc
  refine ⟨_, rfl, hv, hs, hc, ?_, rfl⟩
  have hp : r.chunk k <+: r.channel := List.take_prefix _ _
  obtain ⟨rest, hrest⟩ := hp
  show r.channel = r.chunk k ++ r.channel.drop (r.chunk k).length
  rw [← hrest, List.drop_left]

/-- Where the parse completes, `DoMsg` returns and leaves the unparsed remainder. -/
theorem doMsg_spec (hk : onNetMsg.KeepsRecv) (h : r.client.recvBuff.Valid)
    (hp : headerFraming.Progress r.client.recvBuff.content) :
    ∃ r' fs, r.step onNetMsg .doMsg = some r' ∧ r'.client.recvBuff.Valid ∧
      r'.client.recvBuff.nSize = r.client.recvBuff.nSize ∧
      headerFraming.Parses r.client.recvBuff.content fs r'.client.recvBuff.content ∧
      r'.channel = r.channel ∧ r'.delivered = r.delivered ++ fs.map announced ∧
      r'.parsed = true := by
  obtain ⟨fs, rest, hfs⟩ := (Framing.progress_iff _).mp hp
  have hlen := CellBuffer.nLast_toNat h
  have hle := hfs.1.length_le hp
  have hfuel : fs.length < r.client.recvBuff.nLast.toNat + 1 := by omega
  obtain ⟨y, hy⟩ := exists_msgLoop (x := (r.ext, r.client)) hk hfs h rfl hfuel
  obtain ⟨hv, hs, gs, hg, hpar⟩ := msgLoop_parses hk hy h
  refine ⟨{ r with ext := y.1, client := y.2, delivered := r.delivered ++ gs.map announced,
                   parsed := true }, gs, ?_, hv, hs, hpar, rfl, rfl, rfl⟩
  rw [step, hy, hg]
  rfl

/-- Every event extends the parse of the bytes received so far. -/
theorem Tracks.step (hk : onNetMsg.KeepsRecv) {got : List UInt8} {fs : List (List UInt8)}
    (h : r.Tracks b got fs) (hp : headerFraming.Progress b) (e : RecvEvent) :
    ∃ r' got' fs', r.step onNetMsg e = some r' ∧ r'.Tracks b got' fs' ∧
      (e = .doMsg → headerFraming.frame? r'.client.recvBuff.content = none) := by
  obtain ⟨hv, hb, hd, hc⟩ := h
  cases e with
  | recv k =>
      obtain ⟨r', hr, hv', _, hcont, hch, hdel⟩ := recv_spec onNetMsg hv k
      refine ⟨r', got ++ r.chunk k, fs, hr, ⟨hv', ?_, hdel.trans hd, ?_⟩, by simp⟩
      · rw [List.append_assoc, ← hch, hb]
      · rw [hcont]
        exact hc.extend _
  | doMsg =>
      have hgot : headerFraming.Progress got := (hb ▸ hp).of_append
      obtain ⟨r', gs, hr, hv', _, hpar, hch, hdel, _⟩ :=
        doMsg_spec hk hv (hgot.consumes hc)
      refine ⟨r', got, fs ++ gs, hr, ⟨hv', hch ▸ hb, ?_, hc.append hpar.1⟩, fun _ => hpar.2⟩
      rw [hdel, hd, List.map_append]

/-- The events before the last `DoMsg` keep the parse; the last one completes it. -/
theorem Tracks.run (hk : onNetMsg.KeepsRecv) (hp : headerFraming.Progress b)
    (es : List RecvEvent) {r : Receiver σ} {got : List UInt8} {fs : List (List UInt8)}
    (h : r.Tracks b got fs) :
    ∃ r' got' fs', Receiver.run onNetMsg (es ++ [.doMsg]) r = some r' ∧ r'.Tracks b got' fs' ∧
      headerFraming.frame? r'.client.recvBuff.content = none := by
  induction es generalizing r got fs with
  | nil =>
      obtain ⟨r', got', fs', hr, ht, hn⟩ := h.step hk hp .doMsg
      exact ⟨r', got', fs', by rw [List.nil_append, Receiver.run, hr]; rfl, ht, hn rfl⟩
  | cons e es ih =>
      obtain ⟨r₁, got₁, fs₁, hr₁, ht₁, _⟩ := h.step hk hp e
      obtain ⟨r', got', fs', hr, ht, hn⟩ := ih ht₁
      exact ⟨r', got', fs', by rw [List.cons_append, Receiver.run, hr₁]; exact hr, ht, hn⟩

/-- A run that ends with `DoMsg` returns; it has delivered the reference parse of the
bytes taken from the channel and holds the remainder of that parse. -/
theorem run_parse (hk : onNetMsg.KeepsRecv) (hp : headerFraming.Progress b) (h : r.Awaits b)
    (es : List RecvEvent) :
    ∃ r' got, run onNetMsg (es ++ [.doMsg]) r = some r' ∧ b = got ++ r'.channel ∧
      r'.delivered = (headerFraming.parse got).1.map announced ∧
      r'.client.recvBuff.content = (headerFraming.parse got).2 := by
  obtain ⟨r', got, fs, hr, ht, hn⟩ := h.tracks.run hk hp es
  have hpe := Framing.Parses.parse_eq ⟨ht.consumes, hn⟩
  exact ⟨r', got, hr, ht.split, by rw [hpe, ht.delivered], by rw [hpe]⟩

/-- The reference parse describes every run, so two runs that took the same bytes in
different pieces have delivered the same messages. -/
theorem fragmentation_independent (hk : onNetMsg.KeepsRecv)
    (hp : headerFraming.Progress b) (h : r.Awaits b) (es : List RecvEvent) :
    ∃ r' got, run onNetMsg (es ++ [.doMsg]) r = some r' ∧ b = got ++ r'.channel ∧
      r'.delivered = (headerFraming.parse got).1.map announced ∧
      r'.client.recvBuff.content = (headerFraming.parse got).2 ∧
      ∀ (onNetMsg₂ : Handler σ) (r₂ r₂' : Receiver σ) (es₂ : List RecvEvent),
        onNetMsg₂.KeepsRecv → r₂.Awaits b → run onNetMsg₂ (es₂ ++ [.doMsg]) r₂ = some r₂' →
        r₂'.channel = r'.channel →
        r₂'.delivered = r'.delivered ∧
          r₂'.client.recvBuff.content = r'.client.recvBuff.content := by
  obtain ⟨r', got, hr, hb, hd, hc⟩ := run_parse hk hp h es
  refine ⟨r', got, hr, hb, hd, hc, ?_⟩
  intro onNetMsg₂ r₂ r₂' es₂ hk₂ h₂ hr₂ hch
  obtain ⟨s, got₂, hs, hb₂, hd₂, hc₂⟩ := run_parse hk₂ hp h₂ es₂
  obtain rfl := Option.some.inj (hs.symm.trans hr₂)
  have hg : got₂ = got := by
    rw [hch] at hb₂
    exact List.append_cancel_right (hb₂.symm.trans hb)
  rw [hd₂, hc₂, hd, hc, hg]
  exact ⟨rfl, rfl⟩

/-- A handler that looks at nothing. -/
def ignoreMsg : Handler Unit := fun s c _ => (s, c)

theorem ignoreMsg_keepsRecv : ignoreMsg.KeepsRecv := fun _ _ _ => rfl

def awaiting (nSize : ℕ) (b : List UInt8) : Receiver Unit :=
  ⟨(), .new 1 5 (.new 0 []) (.new nSize (.replicate nSize 0)), b, [], false⟩

/-- The first message ends inside its own header; the second one starts there. -/
theorem fragmentation_independent_short :
    ∃ r' got, run ignoreMsg ([.recv 3, .doMsg, .recv 9] ++ [.doMsg])
        (awaiting 8 [2, 0, 5, 0, 1, 0, 4]) = some r' ∧
      [2, 0, 5, 0, 1, 0, 4] = got ++ r'.channel ∧
      r'.delivered = (headerFraming.parse got).1.map announced ∧
      r'.client.recvBuff.content = (headerFraming.parse got).2 := by
  have hp : headerFraming.Progress [2, 0, 5, 0, 1, 0, 4] :=
    (Framing.progress_iff _).mpr
      ⟨_, _, .cons (n := 2) (by decide) (.cons (n := 5) (by decide) (.nil _)), by decide⟩
  have ha : (awaiting 8 [2, 0, 5, 0, 1, 0, 4]).Awaits [2, 0, 5, 0, 1, 0, 4] :=
    ⟨CellBuffer.valid_new rfl (by decide), CellBuffer.content_new _ _, rfl, rfl⟩
  obtain ⟨r', got, hr, hb, hd, hc, _⟩ :=
    fragmentation_independent ignoreMsg_keepsRecv hp ha [.recv 3, .doMsg, .recv 9]
  exact ⟨r', got, hr, hb, hd, hc⟩

end CellNet.Receiver
