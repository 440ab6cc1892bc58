import CellNet.Verification.Messages.Fragmentation

/-! Frames go from one client to the other through two bounded buffers and a channel
that cuts and joins them at will. The link refines a pipe of whole messages. -/

namespace CellNet

open Library Receiver

/-! ### The abstract pipe -/

/-- What a link is for: messages leave in the order in which they were accepted. -/
structure Pipe (β : Type*) where
  accepted : List β
  delivered : List β
  ordered : delivered <+: accepted

inductive PipeEvent (β : Type*) where
  | put (x : β)
  | get

namespace Pipe

variable {β : Type*}

def system (β : Type*) : System (Pipe β) (PipeEvent β) where
  init p := p.accepted = [] ∧ p.delivered = []
  step p e q :=
    match e with
    | .put x => q.accepted = p.accepted ++ [x] ∧ q.delivered = p.delivered
    | .get => q.accepted = p.accepted ∧ ∃ x, q.delivered = p.delivered ++ [x]

theorem puts (p : Pipe β) (ms : List β) :
    ∃ ls q, (system β).Path p ls q ∧ q.accepted = p.accepted ++ ms ∧
      q.delivered = p.delivered := by
  induction ms generalizing p with
  | nil => exact ⟨[], p, .nil p, by simp, rfl⟩
  | cons m ms ih =>
      let p' : Pipe β := ⟨p.accepted ++ [m], p.delivered, p.ordered.trans (List.prefix_append _ _)⟩
      obtain ⟨ls, q, hp, ha, hd⟩ := ih p'
      have hs : (system β).step p (.put m) p' := ⟨rfl, rfl⟩
      exact ⟨.put m :: ls, q, .cons hs hp, by simp [ha, p'], hd⟩

/-- Any number of the messages under way can be taken out one after the other. -/
theorem gets {p : Pipe β} {ms rest : List β} (h : p.accepted = p.delivered ++ ms ++ rest) :
    ∃ ls q, (system β).Path p ls q ∧ q.accepted = p.accepted ∧
      q.delivered = p.delivered ++ ms := by
  induction ms generalizing p with
  | nil => exact ⟨[], p, .nil p, rfl, by simp⟩
  | cons m ms ih =>
      let p' : Pipe β := ⟨p.accepted, p.delivered ++ [m], ⟨ms ++ rest, by simp [h]⟩⟩
      obtain ⟨ls, q, hp, ha, hd⟩ := ih (p := p') (by simp [h, p'])
      have hs : (system β).step p .get p' := ⟨rfl, m, rfl⟩
      exact ⟨.get :: ls, q, .cons hs hp, ha, by simp [hd, p']⟩

end Pipe

namespace Link

variable {σ : Type*} {onNetMsg : Handler σ} {s : Link σ}

/-! ### The link as a system -/

/-- Nothing was sent yet. -/
structure Fresh (s : Link σ) : Prop where
  send : s.sender.sendBuff.Valid
  sendEmpty : s.sender.sendBuff.content = []
  recv : s.receiver.Awaits []
  unparsed : s.receiver.parsed = false
  accepted : s.accepted = []

def system (onNetMsg : Handler σ) : System (Link σ) LinkEvent where
  init := Fresh
  step s e t := s.Legal e ∧ s.next onNetMsg e = some t

/-- The addition in `push` stays inside `int`. -/
def NoOverflow (s : Link σ) : LinkEvent → Prop
  | .sendData frame => s.sender.sendBuff.nLast + dataLength frame ≤ 2147483647
  | _ => True

/-- What every moment of a run must satisfy: the messages handed over are a prefix of
the accepted frames; the accepted frames account for every byte on the way; and once
nothing is on the way and `DoMsg` has run, everything was handed over. -/
structure Delivers (s : Link σ) : Prop where
  ordered : s.receiver.delivered <+: s.accepted.map announced
  bytes : s.accepted.flatten = (s.receiver.delivered.map Prod.snd).flatten ++
    s.receiver.client.recvBuff.content ++ s.receiver.channel ++ s.sender.sendBuff.content
  flushed : s.sender.sendBuff.nLast = 0 → s.receiver.channel = [] →
    s.receiver.parsed = true →
    s.receiver.delivered = s.accepted.map announced ∧ s.receiver.client.recvBuff.nLast = 0

/-- The frames `fs` were handed over; the frames `pending` are, byte for byte, what the
receive buffer, the channel and the send buffer hold. -/
structure Inv (s : Link σ) (fs pending : List (List UInt8)) : Prop where
  send : s.sender.sendBuff.Valid
  recv : s.receiver.client.recvBuff.Valid
  framed : ∀ f ∈ s.accepted, headerFraming.Framed f
  accepted : s.accepted = fs ++ pending
  delivered : s.receiver.delivered = fs.map announced
  bytes : s.receiver.client.recvBuff.content ++ s.receiver.channel ++
    s.sender.sendBuff.content = pending.flatten
  parsed : s.receiver.parsed = true →
    headerFraming.frame? s.receiver.client.recvBuff.content = none

theorem Fresh.inv (h : s.Fresh) : s.Inv [] [] where
  send := h.send
  recv := h.recv.valid
  framed := by simp [h.accepted]
  accepted := h.accepted
  delivered := h.recv.delivered
  bytes := by simp [h.recv.empty, h.recv.channel, h.sendEmpty]
  parsed hp := by rw [h.unparsed] at hp; cases hp

theorem legal_framed {frame : List UInt8} (h : s.Legal (.sendData frame)) :
    headerFraming.Framed frame :=
  frame?_eq_some_iff.mpr ⟨h.1 ▸ h.2.1, h.1.ge, h.1.symm⟩

/-- `SendData` of a frame either appends all of it or changes no byte. -/
theorem sendHeader_spec {c : CellClient} (h : c.sendBuff.Valid) {frame : List UInt8}
    (hl : frame.length = dataLength frame)
    (ho : c.sendBuff.nLast + dataLength frame ≤ 2147483647) :
    ∃ c' ret, c.sendHeader frame = some (c', ret) ∧ c'.sendBuff.Valid ∧
      (ret = SOCKET_ERROR ∧ c'.sendBuff.content = c.sendBuff.content ∨
        ret ≠ SOCKET_ERROR ∧ c'.sendBuff.content = c.sendBuff.content ++ frame) := by
  rw [← hl] at ho
  obtain ⟨b', hp, hv, _, hc⟩ := CellBuffer.push_spec h frame ho
  have hs : c.sendHeader frame = some ({ c with sendBuff := b' },
      if c.sendBuff.nLast + frame.length ≤ c.sendBuff.nSize then (frame.length : ℤ)
      else SOCKET_ERROR) := by
    rw [CellClient.sendHeader, ← hl, CellClient.sendData, hp]
    simp
  refine ⟨_, _, hs, hv, ?_⟩
  by_cases hf : c.sendBuff.nLast + frame.length ≤ c.sendBuff.nSize
  · rw [if_pos hf] at hc ⊢
    refine .inr ⟨?_, hc⟩
    rw [SOCKET_ERROR]
    omega
  · rw [if_neg hf] at hc ⊢
    exact .inl ⟨rfl, hc⟩

theorem Inv.progress {fs pending : List (List UInt8)} (h : s.Inv fs pending) :
    headerFraming.Progress s.receiver.client.recvBuff.content := by
  have hp : headerFraming.Progress pending.flatten :=
    Framing.progress_flatten fun f hf => h.framed f (by simp [h.accepted, hf])
  rw [← h.bytes, List.append_assoc] at hp
  exact hp.of_append

/-- The step keeps the invariant: it appends an accepted frame, moves bytes along, or
hands over the frames that have arrived. -/
def Advances (onNetMsg : Handler σ) (s : Link σ) (fs : List (List UInt8)) (e : LinkEvent) :
    Prop :=
  ∃ t fs' pending' new, s.next onNetMsg e = some t ∧ t.Inv (fs ++ fs') pending' ∧
    t.accepted = s.accepted ++ new

theorem Inv.sendData {fs pending : List (List UInt8)} (h : s.Inv fs pending)
    {frame : List UInt8} (hl : s.Legal (.sendData frame))
    (ho : s.NoOverflow (.sendData frame)) : s.Advances onNetMsg fs (.sendData frame) := by
  obtain ⟨c, ret, hs, hv, hc⟩ := sendHeader_spec h.send hl.1 ho
  rcases hc with ⟨rfl, hc⟩ | ⟨hr, hc⟩
  · refine ⟨{ s with sender := c }, [], pending, [], ?_, ⟨hv, h.recv, h.framed, ?_, ?_,
      ?_, h.parsed⟩, by simp⟩
    · rw [Link.next, hs]
      rfl
    · simpa using h.accepted
    · simpa using h.delivered
    · show _ ++ c.sendBuff.content = _
      rw [hc]
      exact h.bytes
  · refine ⟨{ s with sender := c, accepted := s.accepted ++ [frame] }, [],
      pending ++ [frame], [frame], ?_, ⟨hv, h.recv, ?_, ?_, ?_, ?_, h.parsed⟩, rfl⟩
    · rw [Link.next, hs, Option.map_some, if_neg hr]
    · intro f hf
      rcases List.mem_append.mp hf with hf | hf
      · exact h.framed f hf
      · rw [List.mem_singleton.mp hf]
        exact legal_framed hl
    · simp [h.accepted]
    · simpa using h.delivered
    · show _ ++ c.sendBuff.content = _
      rw [hc, ← List.append_assoc, h.bytes]
      simp

theorem Inv.sendDataReal {fs pending : List (List UInt8)} (h : s.Inv fs pending) (ret : ℤ) :
    s.Advances onNetMsg fs (.sendDataReal ret) := by
  have hle : s.sent ret ≤ s.sender.sendBuff.nLast := min_le_right _ _
  obtain ⟨hv, _, hc⟩ := CellBuffer.write2socket_spec h.send s.sender.sockfd hle
  refine ⟨_, [], pending, [], rfl, ⟨hv, h.recv, h.framed, ?_, ?_, ?_, h.parsed⟩, by simp⟩
  · simpa using h.accepted
  · simpa using h.delivered
  · have hb := h.bytes
    rw [hc, ← List.append_assoc] at hb
    rw [← hb]
    show _ ++ (_ ++ _) ++ _ = _
    simp only [List.append_assoc]
    rfl

theorem Inv.recvData {fs pending : List (List UInt8)} (h : s.Inv fs pending) (k : ℕ) :
    s.Advances onNetMsg fs (.receive (.recv k)) := by
  obtain ⟨r, hr, hv, _, hcont, hch, hdel⟩ := Receiver.recv_spec onNetMsg h.recv k
  have hp : r.parsed = false := by
    cases hr
    rfl
  refine ⟨{ s with receiver := r }, [], pending, [], ?_, ⟨h.send, hv, h.framed, ?_, ?_,
    ?_, ?_⟩, by simp⟩
  · rw [Link.next, hr]
    rfl
  · simpa using h.accepted
  · simpa using hdel.trans h.delivered
  · have hb := h.bytes
    rw [hch] at hb
    show r.client.recvBuff.content ++ r.channel ++ s.sender.sendBuff.content = _
    rw [hcont]
    simpa only [List.append_assoc] using hb
  · intro ht
    rw [hp] at ht
    cases ht

/-- `DoMsg` hands over the pending frames that have arrived as a whole. -/
theorem Inv.doMsg (hk : onNetMsg.KeepsRecv) {fs pending : List (List UInt8)}
    (h : s.Inv fs pending) : s.Advances onNetMsg fs (.receive .doMsg) := by
  obtain ⟨r, gs, hr, hv, _, hpar, hch, hdel, _⟩ := Receiver.doMsg_spec hk h.recv h.progress
  have hf : ∀ f ∈ pending, headerFraming.Framed f :=
    fun f hf => h.framed f (by simp [h.accepted, hf])
  have hb := h.bytes
  rw [List.append_assoc] at hb
  obtain ⟨rest, rfl, hrest⟩ := hpar.1.framed hf hb
  refine ⟨{ s with receiver := r }, gs, rest, [], ?_, ⟨h.send, hv, h.framed, ?_, ?_, ?_,
    fun _ => hpar.2⟩, by simp⟩
  · rw [Link.next, hr]
    rfl
  · rw [List.append_assoc]
    exact h.accepted
  · show r.delivered = _
    rw [hdel, h.delivered, List.map_append]
  · show r.client.recvBuff.content ++ r.channel ++ s.sender.sendBuff.content = _
    rw [hch, List.append_assoc]
    exact hrest

theorem Inv.next (hk : onNetMsg.KeepsRecv) {fs pending : List (List UInt8)}
    (h : s.Inv fs pending) {e : LinkEvent} (hl : s.Legal e) (ho : s.NoOverflow e) :
    s.Advances onNetMsg fs e := by
  cases e with
  | sendData frame => exact h.sendData hl ho
  | sendDataReal ret => exact h.sendDataReal ret
  | receive e =>
      cases e with
      | recv k => exact h.recvData k
      | doMsg => exact h.doMsg hk

/-- Within the range of `int`, every step of the link is a move of the pipe. -/
theorem refines_pipe (hk : onNetMsg.KeepsRecv) :
    ((system onNetMsg).guard NoOverflow).Simulation (Pipe.system Msg)
      (fun s p => (∃ fs pending, s.Inv fs pending) ∧ p.accepted = s.accepted.map announced ∧
        p.delivered = s.receiver.delivered) where
  init s hs := ⟨⟨[], [], List.prefix_rfl⟩, ⟨rfl, rfl⟩, ⟨[], [], hs.inv⟩,
    by simp [hs.accepted], hs.recv.delivered.symm⟩
  step := by
    rintro s e t p ⟨⟨fs, pending, hi⟩, ha, hd⟩ ⟨ho, hl, hn⟩
    obtain ⟨t', gs, rest, new, ht, hi', hnew⟩ := hi.next hk hl ho
    obtain rfl := Option.some.inj (ht.symm.trans hn)
    obtain ⟨ls, q, hq, hqa, hqd⟩ := p.puts (new.map announced)
    have hqs : q.accepted = t'.accepted.map announced := by
      rw [hqa, ha, hnew, List.map_append]
    have hsplit : q.accepted = q.delivered ++ gs.map announced ++ rest.map announced := by
      rw [hqs, hi'.accepted, hqd, hd, hi.delivered]
      simp only [List.map_append]
    obtain ⟨ms, u, hu, hua, hud⟩ := Pipe.gets hsplit
    refine ⟨ls ++ ms, u, hq.append hu, ⟨_, rest, hi'⟩, hua.trans hqs, ?_⟩
    rw [hud, hqd, hd, hi.delivered, hi'.delivered, List.map_append]

theorem Inv.to_delivers {fs pending : List (List UInt8)} (h : s.Inv fs pending)
    (ho : s.receiver.delivered <+: s.accepted.map announced) : s.Delivers where
  ordered := ho
  bytes := by
    have hd : (fs.map announced).map Prod.snd = fs := by
      rw [List.map_map]
      exact List.map_id fs
    rw [h.delivered, hd, h.accepted, List.flatten_append, ← h.bytes]
    simp only [List.append_assoc]
  flushed := by
    intro hz hch hp
    have hb := h.bytes
    rw [hch, (CellBuffer.content_eq_nil_iff h.send).mpr hz, List.append_nil,
      List.append_nil] at hb
    have hn := h.parsed hp
    cases pending with
    | nil =>
        exact ⟨by rw [h.delivered, h.accepted, List.append_nil],
          (CellBuffer.content_eq_nil_iff h.recv).mp hb⟩
    | cons f rest =>
        have hf := h.framed f (by simp [h.accepted])
        rw [hb, List.flatten_cons, headerFraming.stable _ hf] at hn
        cases hn

/-- A frame whose admission sum leaves `int` is written past the send buffer. -/
theorem next_overflow (h : s.sender.sendBuff.Valid)
    {frame : List UInt8} (hl : s.Legal (.sendData frame))
    (ho : ¬ s.NoOverflow (.sendData frame)) : s.next onNetMsg (.sendData frame) = none := by
  have hlt : dataLength frame < 256 ^ (slice frame 0 2).length := decodeLE_lt _
  have h4 := hl.2.1
  have h2 : (slice frame 0 2).length = 2 := length_slice (by have := hl.1; omega)
  rw [h2] at hlt
  have hp : s.sender.sendBuff.push frame frame.length = none := by
    refine CellBuffer.push_overflow h frame (by have := hl.1; omega) ?_
    simp only [NoOverflow] at ho
    have := hl.1
    omega
  rw [Link.next, CellClient.sendHeader, ← hl.1, CellClient.sendData, hp]
  rfl

/-- In every run in which no admission test of `push` leaves the range of `int`, the
link delivers; and then exactly such sends are defined. -/
theorem delivers (hk : onNetMsg.KeepsRecv)
    (hs : ((system onNetMsg).guard NoOverflow).Reachable s) :
    s.Delivers ∧
      (∀ e, s.Legal e → ((∃ t, s.next onNetMsg e = some t) ↔ s.NoOverflow e)) ∧
      ∀ frame c, s.Legal (.sendData frame) →
        s.sender.sendHeader frame = some (c, SOCKET_ERROR) →
        c.sendBuff.content = s.sender.sendBuff.content := by
  obtain ⟨p, _, ⟨fs, pending, hi⟩, ha, hd⟩ := (refines_pipe hk).reachable hs
  have hdef : ∀ e, s.Legal e → ((∃ t, s.next onNetMsg e = some t) ↔ s.NoOverflow e) := by
    intro e hl
    constructor
    · rintro ⟨t, ht⟩
      by_contra ho
      cases e with
      | sendData frame =>
          rw [next_overflow hi.send hl ho] at ht
          cases ht
      | sendDataReal ret => exact ho trivial
      | receive e => exact ho trivial
    · intro ho
      obtain ⟨t, _, _, _, ht, _⟩ := hi.next hk hl ho
      exact ⟨t, ht⟩
  refine ⟨hi.to_delivers (by rw [← ha, ← hd]; exact p.ordered), hdef, ?_⟩
  intro frame c hl hc
  have ho : s.NoOverflow (.sendData frame) := by
    refine (hdef _ hl).mp ⟨{ s with sender := c }, ?_⟩
    rw [Link.next, hc]
    rfl
  obtain ⟨c', ret, hs', _, hcases⟩ := sendHeader_spec hi.send hl.1 ho
  obtain ⟨rfl, rfl⟩ := Prod.mk.inj (Option.some.inj (hs'.symm.trans hc))
  rcases hcases with ⟨_, hcont⟩ | ⟨hne, _⟩
  · exact hcont
  · exact absurd rfl hne

/-! ### Concrete links -/

/-- Two new clients with zeroed buffers. -/
def wired (sendSize recvSize : ℕ) : Link Unit where
  sender := .new 1 5 (.new sendSize (.replicate sendSize 0)) (.new 0 [])
  receiver := .awaiting recvSize []
  accepted := []

theorem fresh_wired {m n : ℕ} (hm : m ≤ 2147483647) (hn : n ≤ 2147483647) :
    (wired m n).Fresh where
  send := CellBuffer.valid_new (by simp) (by omega)
  sendEmpty := CellBuffer.content_new _ _
  recv := ⟨CellBuffer.valid_new (by simp) (by omega), CellBuffer.content_new _ _, rfl, rfl⟩
  unparsed := rfl
  accepted := rfl

theorem delivers_frame :
    ∃ t, (wired 8 8).next ignoreMsg (.sendData [4, 0, 7, 0]) = some t ∧ t.Delivers := by
  have h₀ : (wired 8 8).Fresh := fresh_wired (by decide) (by decide)
  have hl : (wired 8 8).Legal (.sendData [4, 0, 7, 0]) := ⟨by decide, by decide, by decide⟩
  have ho : (wired 8 8).NoOverflow (.sendData [4, 0, 7, 0]) := by
    show (0 : ℤ) + (dataLength [4, 0, 7, 0] : ℕ) ≤ 2147483647
    decide
  refine ⟨_, rfl, (delivers ignoreMsg_keepsRecv ?_).1⟩
  exact (System.Reachable.init h₀).step ⟨ho, hl, rfl⟩

/-- A frame that fits is appended, and nothing else changes. -/
theorem next_accept (onNetMsg : Handler σ) (h : s.sender.sendBuff.Valid) {frame : List UInt8}
    (hl : frame.length = dataLength frame)
    (hf : s.sender.sendBuff.nLast + frame.length ≤ s.sender.sendBuff.nSize) :
    ∃ t, s.next onNetMsg (.sendData frame) = some t ∧ t.receiver = s.receiver ∧
      t.sender.sendBuff.Valid ∧ t.sender.sendBuff.nSize = s.sender.sendBuff.nSize ∧
      t.sender.sendBuff.nLast = s.sender.sendBuff.nLast + frame.length := by
  have hi := h.int32
  obtain ⟨b, hb, hv, _, _⟩ := CellBuffer.push_spec h frame (by omega)
  have ha := CellBuffer.push_accept h hf
  obtain rfl := congrArg Prod.fst (Option.some.inj (hb.symm.trans ha))
  rw [Link.next, CellClient.sendHeader, ← hl, CellClient.sendData, ha]
  exact ⟨_, rfl, rfl, hv, rfl, rfl⟩

/-- The longest frame a header can announce. -/
def longest : List UInt8 :=
  [255, 255, 0, 0] ++ .replicate 65531 0

theorem dataLength_longest : dataLength longest = 65535 := by
  rw [longest, dataLength_append (by decide)]
  decide

theorem length_longest : longest.length = 65535 := by
  rw [longest, List.length_append, List.length_replicate]
  rfl

theorem legal_longest (h : s.receiver.client.recvBuff.nSize = 65535) :
    s.Legal (.sendData longest) := by
  refine ⟨length_longest.trans dataLength_longest.symm, ?_, ?_⟩
  · rw [dataLength_longest]
    decide
  · rw [dataLength_longest, h]
    decide

/-- A send buffer of `INT_MAX` bytes takes up to 32768 of the longest frames. -/
theorem reachable_loaded (n : ℕ) (hn : n ≤ 32768) :
    ∃ s : Link Unit, (system ignoreMsg).Reachable s ∧
      s.receiver = (wired 2147483647 65535).receiver ∧
      s.sender.sendBuff.Valid ∧ s.sender.sendBuff.nSize = 2147483647 ∧
      s.sender.sendBuff.nLast = 65535 * n := by
  induction n with
  | zero =>
      have h₀ : (wired 2147483647 65535).Fresh := fresh_wired le_rfl (by decide)
      exact ⟨_, .init h₀, rfl, h₀.send, rfl, rfl⟩
  | succ n ih =>
      obtain ⟨s, hs, hr, hv, hsize, hlast⟩ := ih (by omega)
      have hl : s.Legal (.sendData longest) := legal_longest (by rw [hr]; rfl)
      obtain ⟨t, ht, htr, htv, hts, htl⟩ := next_accept ignoreMsg hv hl.1
        (by rw [length_longest, hsize, hlast]; omega)
      refine ⟨t, hs.step ⟨hl, ht⟩, htr.trans hr, htv, hts.trans hsize, ?_⟩
      rw [htl, hlast, length_longest]
      omega

/-- With 32768 such frames unsent, the next one is admitted and written past the end. -/
theorem delivery_overflows :
    ∃ (s : Link Unit) (frame : List UInt8), (system ignoreMsg).Reachable s ∧
      s.Legal (.sendData frame) ∧ s.next ignoreMsg (.sendData frame) = none := by
  obtain ⟨s, hs, hr, hv, _, hlast⟩ := reachable_loaded 32768 le_rfl
  have hl : s.Legal (.sendData longest) := legal_longest (by rw [hr]; rfl)
  refine ⟨s, longest, hs, hl, next_overflow hv hl ?_⟩
  show ¬ s.sender.sendBuff.nLast + dataLength longest ≤ 2147483647
  rw [hlast, dataLength_longest]
  omega

end Link

end CellNet
