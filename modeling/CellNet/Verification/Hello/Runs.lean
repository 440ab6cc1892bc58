import CellNet.Verification.Hello.Slots

/-! Runs of the echo server: every block is always accounted for, a block that was left without an
operation stays so, and each client is sent what it sent, chunk by chunk. -/

namespace CellNet.HelloIOCP

open Library

namespace HelloServer

variable {s t : HelloServer} {n i : ℕ}

/-- Closing one socket after the other. -/
theorem closesocket_all {fds : List SOCKET} (h : s.sockets.Perm (fds.filter isOpen)) :
    fds.foldlM closesocket s = some { s with sockets := [] } := by
  induction fds generalizing s with
  | nil =>
      have hnil : s.sockets = [] := List.perm_nil.mp h
      have hs : s = { s with sockets := [] } := by rw [← hnil]
      exact congrArg some hs
  | cons fd fds ih =>
      rw [List.foldlM_cons]
      by_cases hfd : fd = INVALID_SOCKET
      · rw [closesocket, if_pos hfd, Option.bind_eq_bind, Option.bind_some]
        exact ih (by simpa [isOpen, hfd] using h)
      · have hcons : s.sockets.Perm (fd :: fds.filter isOpen) := by simpa [isOpen, hfd] using h
        have hmem : fd ∈ s.sockets := hcons.mem_iff.mpr List.mem_cons_self
        rw [closesocket, if_neg hfd, if_pos hmem, Option.bind_eq_bind, Option.bind_some]
        refine ih (s := { s with sockets := s.sockets.erase fd }) ?_
        have herase := hcons.erase fd
        rwa [List.erase_cons_head] at herase

theorem next_postAccept {a : AcceptAnswer} (h : s.postAccept s.posted a = some t) :
    s.next (.postAccept a) = some { t with posted := t.posted + 1 } := by
  rw [HelloServer.next, h, Option.map_some]

/-- Behind the loop every open socket is closed once. -/
theorem ServerOk.finish (h : s.ServerOk n) (hall : s.posted = s.ioData.length) :
    s.finish = some { s with running := false, sockets := [] } := by
  apply closesocket_all (s := { s with running := false })
  have howned : s.owned = (s.sockServer :: s.ioData.map IoDataBase.sockfd).filter isOpen := by
    rw [owned, hall, List.take_length]
  refine (howned ▸ h.sockets).trans (List.Perm.filter _ ?_)
  exact (List.perm_append_singleton s.sockServer _).symm

/-- An operation that failed is taken off the port, and nothing follows. -/
theorem ServerOk.netnameDeleted (h : s.ServerOk n) {op : Overlapped} (ho : op ∈ s.pending) :
    ServerOk { s with pending := s.pending.erase op } n ∧
      (s.pending.erase op).length + 1 = s.pending.length ∧
      ops { s with pending := s.pending.erase op } op.slot = [] ∧
      ∀ j, j ≠ op.slot → ops { s with pending := s.pending.erase op } j = s.ops j := by
  obtain ⟨hok, hempty⟩ := h.take ho
  have hpos := List.length_pos_of_mem ho
  refine ⟨hok, ?_, hempty, ?_⟩
  · rw [List.length_erase_of_mem ho]
    omega
  · intro j hj
    rw [ops_erase, List.erase_of_not_mem]
    exact fun hm => hj (mem_ops.mp hm).2.symm

end HelloServer

open HelloServer

namespace Watched

variable {w w' : Watched} {n i : ℕ} {R : List UInt8 → List UInt8 → Prop}

/-! ### One client -/

/-- Every chunk that was sent stands in the relation to the one that was received in its place, and
at most one was received that was not sent yet. -/
structure Echoes (R : List UInt8 → List UInt8 → Prop) (heard told : List (List UInt8)) :
    Prop where
  behind : told.length ≤ heard.length
  ahead : heard.length ≤ told.length + 1
  chunks : List.Forall₂ R (heard.take told.length) told

/-- What a receive, or a send, that is outstanding on the block is for. -/
structure EchoOk (R : List UInt8 → List UInt8 → Prop) (s : HelloServer) (i : ℕ)
    (heard told : List (List UInt8)) : Prop extends Echoes R heard told where
  recv : ∀ op ∈ s.ops i, op.iotype = .recv → heard.length = told.length
  send : ∀ op ∈ s.ops i, op.iotype = .send → ∀ d, s.ioData[i]? = some d →
    ∃ hs, heard = hs ++ [d.buffer.take op.len.toNat] ∧ hs.length = told.length

theorem echoes_nil (R : List UInt8 → List UInt8 → Prop) : Echoes R [] [] :=
  ⟨le_rfl, Nat.zero_le 1, .nil⟩

/-- A block on which nothing of this kind is outstanding. -/
theorem Echoes.idle {s : HelloServer} {heard told : List (List UInt8)} (h : Echoes R heard told)
    (hi : ∀ op ∈ s.ops i, op.iotype = .accpet) : EchoOk R s i heard told where
  toEchoes := h
  recv op ho hop := by
    rw [hi op ho] at hop
    cases hop
  send op ho hop := by
    rw [hi op ho] at hop
    cases hop

theorem EchoOk.congr {s t : HelloServer} {heard told : List (List UInt8)}
    (h : EchoOk R s i heard told) (hd : t.ioData[i]? = s.ioData[i]?) (ho : t.ops i = s.ops i) :
    EchoOk R t i heard told where
  toEchoes := h.toEchoes
  recv := ho ▸ h.recv
  send := by
    rw [ho, hd]
    exact h.send

/-- Every send that completes has taken what `R` allows. -/
def Taken (R : List UInt8 → List UInt8 → Prop) (w : Watched) : HelloEvent → Prop
  | .completion op bytes _ => op.iotype = .send → ∀ d, w.server.ioData[op.slot]? = some d →
      R (d.buffer.take op.len.toNat) bytes
  | _ => True

/-- A completion on the block of the client. -/
theorem EchoOk.completion {op : Overlapped} {bytes : List UInt8} {a : Answer} {t : HelloServer}
    (hok : w.server.ServerOk n) (ho : op ∈ w.server.pending)
    (h : EchoOk R w.server op.slot (w.heard op.slot) (w.told op.slot))
    (ht : Turned w.server op bytes a t) (htaken : w.Taken R (.completion op bytes a)) :
    EchoOk R t op.slot (w.heardBy (.completion op bytes a) op.slot)
      (w.toldBy (.completion op bytes a) op.slot) := by
  obtain ⟨d, hd, -, hops⟩ := hok.fits ho
  have hmem : op ∈ w.server.ops op.slot := hops ▸ List.mem_singleton.mpr rfl
  simp only [heardBy, toldBy, if_true]
  cases hop : op.iotype with
  | accpet =>
      refine ⟨echoes_nil R, fun _ _ _ => rfl, ?_⟩
      intro o hmo ho e he
      have hrecv := (ht.send e he o hmo ho).1
      rw [hop] at hrecv
      cases hrecv
  | recv =>
      have hlen := h.recv op hmem hop
      have hchunks := h.chunks
      refine ⟨⟨by simp; omega, by simp; omega, ?_⟩, ?_, ?_⟩
      · rwa [List.take_append_of_le_length hlen.ge]
      · intro o hmo ho
        exact absurd hop (ht.recv o hmo ho)
      · intro o hmo ho e he
        exact ⟨_, by rw [(ht.send e he o hmo ho).2], hlen⟩
  | send =>
      obtain ⟨hs, hheard, hlen⟩ := h.send op hmem hop d hd
      have hchunks := h.chunks
      have hr := htaken hop d hd
      have heq : (w.heard op.slot).length = (w.told op.slot ++ [bytes]).length := by
        rw [hheard, List.length_append, List.length_append, hlen]
        rfl
      have hall : List.Forall₂ R (w.heard op.slot) (w.told op.slot ++ [bytes]) := by
        rw [hheard] at hchunks ⊢
        rw [List.take_left' hlen] at hchunks
        exact List.rel_append hchunks (.cons hr .nil)
      refine ⟨⟨heq.ge, heq.le.trans (Nat.le_succ _), ?_⟩, fun _ _ _ => heq, ?_⟩
      · rwa [← heq, List.take_length]
      · intro o hmo ho e he
        have hrecv := (ht.send e he o hmo ho).1
        rw [hop] at hrecv
        cases hrecv

/-! ### Runs -/

/-- What is kept while the loop runs, and what is left behind it. -/
structure WatchedOk (R : List UInt8 → List UInt8 → Prop) (w : Watched) (n : ℕ) : Prop where
  running : w.server.running = true → w.server.ServerOk n ∧
    w.server.pending.length + w.lost = w.server.posted
  stopped : w.server.running = false → w.server.sockets = []
  clients : ∀ i, Echoes R (w.heard i) (w.told i)
  serving : w.server.running = true → ∀ i, EchoOk R w.server i (w.heard i) (w.told i)

theorem start_ok {sockServer : SOCKET} (h : sockServer ≠ INVALID_SOCKET) :
    (HelloServer.start n sockServer true).ServerOk n where
  acceptEx := rfl
  size := by simp [HelloServer.start]
  posted := Nat.zero_le n
  slot i d hd := by
    rw [HelloServer.start, List.getElem?_replicate] at hd
    split at hd
    · obtain rfl := Option.some.inj hd
      exact ⟨List.length_replicate, .inl rfl⟩
    · cases hd
  unposted _ _ := rfl
  sockets := by simp [HelloServer.start, owned, isOpen, h]
  nodup := by simp [HelloServer.start]

theorem WatchedOk.start {sockServer : SOCKET} (h : sockServer ≠ INVALID_SOCKET) :
    WatchedOk R ⟨.start n sockServer true, fun _ => [], fun _ => [], 0⟩ n where
  running _ := ⟨start_ok h, rfl⟩
  stopped hrun := by cases hrun
  clients _ := echoes_nil R
  serving _ _ := (echoes_nil R).idle fun _ ho => absurd ho List.not_mem_nil

/-- Behind an event that makes a server of the server. -/
def after (w : Watched) (e : HelloEvent) (server : HelloServer) : Watched where
  server := server
  heard := w.heardBy e
  told := w.toldBy e
  lost := w.lost + if e.drops then 1 else 0

theorem next_eq {e : HelloEvent} {server : HelloServer} (h : w.server.next e = some server) :
    w.next e = some (w.after e server) := by
  rw [Watched.next, h]
  rfl

/-- A legal event is defined, and keeps everything. -/
theorem WatchedOk.next (h : WatchedOk R w n) {e : HelloEvent} (hl : w.server.Legal e)
    (ht : w.Taken R e) : ∃ w', w.next e = some w' ∧ WatchedOk R w' n := by
  cases e with
  | postAccept a =>
      obtain ⟨hrun, hlt, hfresh⟩ := hl
      obtain ⟨hok, hcount⟩ := h.running hrun
      obtain ⟨t, hp, hok', hs⟩ := hok.start_postAccept (hok.size ▸ hlt) hfresh
      refine ⟨_, next_eq (next_postAccept hp), ?_, ?_, h.clients, ?_⟩
      · intro _
        refine ⟨hs.posted ▸ hok', ?_⟩
        have hone := hs.count
        have hposted := hs.posted
        dsimp only [after]
        omega
      · intro hover
        dsimp only [after] at hover
        rw [hs.running, hrun] at hover
        cases hover
      · intro _ i
        by_cases hi : i = w.server.posted
        · exact (h.clients i).idle (hi ▸ hs.accpet)
        · obtain ⟨hd, ho⟩ := hs.frame i hi
          exact (h.serving hrun i).congr hd ho
  | timeout => exact ⟨_, rfl, h.running, h.stopped, h.clients, h.serving⟩
  | failed =>
      obtain ⟨hrun, hall⟩ := hl
      obtain ⟨hok, -⟩ := h.running hrun
      refine ⟨_, next_eq (hok.finish hall), ?_, fun _ => rfl, h.clients, ?_⟩
      · intro hover
        cases hover
      · intro hover
        cases hover
  | netnameDeleted op =>
      obtain ⟨hrun, -, ho⟩ := hl
      obtain ⟨hok, hcount⟩ := h.running hrun
      obtain ⟨hok', hlen, hempty, hframe⟩ := hok.netnameDeleted ho
      refine ⟨_, next_eq rfl, fun _ => ⟨hok', ?_⟩, h.stopped, h.clients, ?_⟩
      · simp only [after, HelloEvent.drops, if_true]
        omega
      · intro _ i
        by_cases hi : i = op.slot
        · refine (h.clients i).idle fun o hmo => ?_
          have hnone : o ∈ ops { w.server with pending := w.server.pending.erase op } op.slot :=
            hi ▸ hmo
          rw [hempty] at hnone
          cases hnone
        · exact (h.serving hrun i).congr rfl (hframe i hi)
  | completion op bytes a =>
      obtain ⟨hrun, -, ho, hm, hfresh⟩ := hl
      obtain ⟨hok, hcount⟩ := h.running hrun
      obtain ⟨t, hn, hok', hturned⟩ := hok.completion ho hm hfresh
      have hclient := (h.serving hrun op.slot).completion hok ho hturned ht
      have hother : ∀ i, i ≠ op.slot →
          w.heardBy (.completion op bytes a) i = w.heard i ∧
            w.toldBy (.completion op bytes a) i = w.told i := by
        intro i hi
        simp [heardBy, toldBy, hi]
      refine ⟨_, next_eq hn, ?_, ?_, ?_, ?_⟩
      · intro _
        refine ⟨hok', ?_⟩
        have hone := hturned.count
        have hposted := hturned.posted
        dsimp only [after]
        omega
      · intro hover
        dsimp only [after] at hover
        rw [hturned.running, hrun] at hover
        cases hover
      · intro i
        by_cases hi : i = op.slot
        · exact hi ▸ hclient.toEchoes
        · obtain ⟨hh, htold⟩ := hother i hi
          dsimp only [after]
          rw [hh, htold]
          exact h.clients i
      · intro _ i
        by_cases hi : i = op.slot
        · exact hi ▸ hclient
        · obtain ⟨hh, htold⟩ := hother i hi
          obtain ⟨hd, hops⟩ := hturned.frame i hi
          dsimp only [after]
          rw [hh, htold]
          exact (h.serving hrun i).congr hd hops

theorem WatchedOk.step (h : WatchedOk R w n) {e : HelloEvent} (hs : (system n).step w e w')
    (ht : w.Taken R e) : WatchedOk R w' n := by
  obtain ⟨hl, hn⟩ := hs
  obtain ⟨x, hx, hok⟩ := h.next hl ht
  exact Option.some.inj (hx.symm.trans hn) ▸ hok

theorem guarded_invariant (R : List UInt8 → List UInt8 → Prop) (n : ℕ) :
    ((system n).guard (Taken R)).Invariant fun w => WatchedOk R w n where
  init := by
    rintro w ⟨sockServer, hv, rfl⟩
    exact .start hv
  step _ _ _ h hs := h.step hs.2 hs.1

/-- Whatever the sends take, the blocks and the sockets are in order. -/
theorem taken_any (w : Watched) (e : HelloEvent) : w.Taken (fun _ _ => True) e := by
  cases e with
  | completion => exact fun _ _ _ => trivial
  | _ => trivial

theorem invariant (n : ℕ) :
    (system n).Invariant fun w => WatchedOk (fun _ _ => True) w n where
  init := (guarded_invariant _ n).init
  step _ _ _ h hs := h.step hs (taken_any _ _)

/-- As long as the loop runs, no block has two operations, an operation is the one that its block is
about, and the open sockets are those that the server knows of; behind the loop none is open. No
event that the kernel can bring finds the server without an answer. -/
theorem slots_sound {w : Watched} (h : (system n).Reachable w) :
    (w.server.running = true → w.server.ServerOk n) ∧
      (w.server.running = false → w.server.sockets = []) ∧
      ∀ e, w.server.Legal e → ∃ w', w.next e = some w' := by
  have hok := (invariant n).reachable h
  refine ⟨fun hrun => (hok.running hrun).1, hok.stopped, fun e hl => ?_⟩
  obtain ⟨w', hn, -⟩ := hok.next hl (taken_any w e)
  exact ⟨w', hn⟩

instance [DecidableRel R] (w : Watched) : (e : HelloEvent) → Decidable (w.Taken R e)
  | .completion op bytes _ => inferInstanceAs (Decidable (op.iotype = .send →
      ∀ d ∈ w.server.ioData[op.slot]?, R (d.buffer.take op.len.toNat) bytes))
  | .postAccept _ | .timeout | .failed | .netnameDeleted _ => isTrue trivial

/-- A run, if all its events are legal and its sends take what `R` allows. -/
def play (R : List UInt8 → List UInt8 → Prop) [DecidableRel R] (w : Watched)
    (es : List HelloEvent) : Option Watched :=
  es.foldlM (fun w e => if w.Taken R e ∧ w.server.Legal e then w.next e else none) w

theorem path_of_play [DecidableRel R] {es : List HelloEvent} (h : w.play R es = some w') :
    ((system n).guard (Taken R)).Path w es w' := by
  refine System.Path.of_next _ (fun x e y hxy => ?_) h
  split at hxy
  · next hok => exact ⟨hok.1, hok.2, hxy⟩
  · cases hxy

/-- One client comes, and is sent back the two bytes that were received from it. -/
def echoing : List HelloEvent :=
  let a : Answer := ⟨true, true, ⟨6, true⟩⟩
  [.postAccept ⟨5, true⟩, .completion ⟨0, .accpet, 5, 0⟩ [] a,
    .completion ⟨0, .recv, 5, 1024⟩ [1, 2] a, .completion ⟨0, .send, 5, 2⟩ [1, 2] a]

def quiet : Watched := ⟨.start 1 3 true, fun _ => [], fun _ => [], 0⟩

theorem reachable_of_play [DecidableRel R] {es : List HelloEvent} (h : quiet.play R es = some w) :
    ((system 1).guard (Taken R)).Reachable w :=
  ⟨quiet, es, ⟨3, by decide, rfl⟩, path_of_play h⟩

theorem slots_sound_echoing : ∃ w, quiet.play Eq echoing = some w ∧ w.told 0 = [[1, 2]] ∧
    (w.server.running = true → w.server.ServerOk 1) ∧
      (w.server.running = false → w.server.sockets = []) ∧
      ∀ e, w.server.Legal e → ∃ w', w.next e = some w' := by
  have hplay : (quiet.play Eq echoing).map (fun w => w.told 0) = some [[1, 2]] := by decide +kernel
  obtain ⟨w, hw, htold⟩ := Option.map_eq_some_iff.mp hplay
  exact ⟨w, hw, htold, slots_sound (reachable_of_play hw).of_guard⟩

/-! ### Blocks that are left behind -/

/-- A block of the first loop that has been left without an operation. -/
structure Idle (w : Watched) (i : ℕ) : Prop where
  posted : i < w.server.posted
  ops : w.server.ops i = []

/-- What nobody changes for a block without an operation. -/
structure Kept (w : Watched) (i : ℕ) (w' : Watched) : Prop where
  block : w'.server.ioData[i]? = w.server.ioData[i]?
  heard : w'.heard i = w.heard i
  told : w'.told i = w.told i

theorem after_of_step {e : HelloEvent} (hs : (system n).step w e w') {server : HelloServer}
    (h : w.server.next e = some server) : w' = w.after e server :=
  Option.some.inj (hs.2.symm.trans (next_eq h))

theorem lost_step {e : HelloEvent} (hs : (system n).step w e w') : w.lost ≤ w'.lost := by
  obtain ⟨server, -, rfl⟩ := Option.map_eq_some_iff.mp hs.2
  exact Nat.le_add_right ..

/-- An event is about another block. -/
theorem Idle.step (h : w.Idle i) (hok : WatchedOk (fun _ _ => True) w n) {e : HelloEvent}
    (hs : (system n).step w e w') (hrun : w'.server.running = true) :
    w'.Idle i ∧ w.Kept i w' := by
  have hl := hs.1
  cases e with
  | postAccept a =>
      obtain ⟨hrun', hlt, hfresh⟩ := hl
      obtain ⟨hok', -⟩ := hok.running hrun'
      obtain ⟨t, hp, -, hstarted⟩ := hok'.start_postAccept (hok'.size ▸ hlt) hfresh
      obtain rfl := after_of_step hs (next_postAccept hp)
      obtain ⟨hd, ho⟩ := hstarted.frame i h.posted.ne
      refine ⟨⟨?_, ho.trans h.ops⟩, hd, rfl, rfl⟩
      have hposted := hstarted.posted
      have hi := h.posted
      dsimp only [after]
      omega
  | timeout =>
      obtain rfl := after_of_step hs rfl
      exact ⟨h, rfl, rfl, rfl⟩
  | failed =>
      obtain ⟨hok', -⟩ := hok.running hl.1
      obtain rfl := after_of_step hs (hok'.finish hl.2)
      cases hrun
  | netnameDeleted op =>
      obtain ⟨hrun', -, ho⟩ := hl
      obtain ⟨hok', -⟩ := hok.running hrun'
      obtain rfl := after_of_step hs rfl
      obtain ⟨-, -, hempty, hframe⟩ := hok'.netnameDeleted ho
      refine ⟨⟨h.posted, ?_⟩, rfl, rfl, rfl⟩
      by_cases hi : i = op.slot
      · exact hi ▸ hempty
      · exact (hframe i hi).trans h.ops
  | completion op bytes a =>
      obtain ⟨hrun', -, ho, hm, hfresh⟩ := hl
      obtain ⟨hok', -⟩ := hok.running hrun'
      obtain ⟨t, hserver, -, hturned⟩ := hok'.completion ho hm hfresh
      obtain rfl := after_of_step hs hserver
      have hi : i ≠ op.slot := by
        rintro rfl
        have hmem := mem_ops.mpr ⟨ho, rfl⟩
        rw [h.ops] at hmem
        cases hmem
      obtain ⟨hd, hops⟩ := hturned.frame i hi
      refine ⟨⟨hturned.posted ▸ h.posted, hops.trans h.ops⟩, hd, ?_, ?_⟩
      · simp [after, heardBy, hi]
      · simp [after, toldBy, hi]

theorem running_of_legal {s : HelloServer} {e : HelloEvent} (h : s.Legal e) : s.running = true := by
  cases e with
  | _ => exact h.1

theorem Kept.trans {x : Watched} (h : w.Kept i w') (hx : w'.Kept i x) : w.Kept i x where
  block := hx.block.trans h.block
  heard := hx.heard.trans h.heard
  told := hx.told.trans h.told

/-- The server serves one client less with every block that is left without an operation: such a
block stays as it is, with its socket, for as long as the loop runs. -/
theorem blocks_lost {w w' : Watched} {es : List HelloEvent} (h : (system n).Reachable w)
    (hp : (system n).Path w es w') (hrun : w'.server.running = true) :
    (∀ i, w.Idle i → w'.Idle i ∧ w.Kept i w') ∧ w.lost ≤ w'.lost ∧
      w'.server.pending.length + w'.lost = w'.server.posted := by
  let P (x : Watched) : Prop := WatchedOk (fun _ _ => True) x n ∧ (x.server.running = true →
    (∀ i, w.Idle i → x.Idle i ∧ w.Kept i x) ∧ w.lost ≤ x.lost)
  have hkept : P w' := by
    refine hp.preserves (P := P) ?_ ⟨(invariant n).reachable h, ?_⟩
    · rintro x e y ⟨hok, hx⟩ hs
      refine ⟨(invariant n).step x e y hok hs, fun hy => ?_⟩
      obtain ⟨hidle, hle⟩ := hx (running_of_legal hs.1)
      refine ⟨?_, hle.trans (lost_step hs)⟩
      intro i hi
      obtain ⟨hix, hkx⟩ := hidle i hi
      obtain ⟨hiy, hky⟩ := hix.step hok hs hy
      exact ⟨hiy, hkx.trans hky⟩
    · exact fun _ => ⟨fun i hi => ⟨hi, rfl, rfl, rfl⟩, le_rfl⟩
  obtain ⟨hok, hall⟩ := hkept
  exact ⟨(hall hrun).1, (hall hrun).2, (hok.running hrun).2⟩

/-- The receive of the only client fails. -/
def failing : List HelloEvent :=
  let a : Answer := ⟨true, true, ⟨6, true⟩⟩
  [.postAccept ⟨5, true⟩, .completion ⟨0, .accpet, 5, 0⟩ [] a, .netnameDeleted ⟨0, .recv, 5, 1024⟩]

theorem blocks_lost_failing : ∃ w w', quiet.play Eq failing = some w ∧
    w.play Eq [.timeout] = some w' ∧ w.Idle 0 ∧ w'.lost = 1 ∧
    (∀ i, w.Idle i → w'.Idle i ∧ w.Kept i w') ∧ w.lost ≤ w'.lost ∧
      w'.server.pending.length + w'.lost = w'.server.posted := by
  have hplay : ((quiet.play Eq failing).bind fun w => (w.play Eq [.timeout]).map fun w' =>
      (w.server.posted, w.server.ops 0, w'.lost, w'.server.running)) = some (1, [], 1, true) := by
    decide +kernel
  obtain ⟨w, hw, hplay⟩ := Option.bind_eq_some_iff.mp hplay
  obtain ⟨w', hw', heq⟩ := Option.map_eq_some_iff.mp hplay
  simp only [Prod.mk.injEq] at heq
  obtain ⟨hposted, hops, hlost, hrun⟩ := heq
  exact ⟨w, w', hw, hw', ⟨hposted ▸ Nat.zero_lt_one, hops⟩, hlost,
    blocks_lost (reachable_of_play hw).of_guard (path_of_play hw').of_guard hrun⟩

/-! ### Echo -/

/-- Whatever holds between what each send was given and what it took, holds between the chunks that
a client has sent and those that it was sent, in order and one by one. -/
theorem chunks_echoed (R : List UInt8 → List UInt8 → Prop) {w : Watched}
    (h : ((system n).guard (Taken R)).Reachable w) (i : ℕ) : Echoes R (w.heard i) (w.told i) :=
  ((guarded_invariant R n).reachable h).clients i

/-- The send of the only client completes whole. -/
theorem chunks_echoed_echoing : ∃ w, quiet.play Eq echoing = some w ∧ w.told 0 = [[1, 2]] ∧
    Echoes Eq (w.heard 0) (w.told 0) := by
  have hplay : (quiet.play Eq echoing).map (fun w => w.told 0) = some [[1, 2]] := by decide +kernel
  obtain ⟨w, hw, htold⟩ := Option.map_eq_some_iff.mp hplay
  exact ⟨w, hw, htold, chunks_echoed Eq (reachable_of_play hw) 0⟩

end Watched

end CellNet.HelloIOCP
