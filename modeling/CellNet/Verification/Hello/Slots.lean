import CellNet.Library.Memory
import CellNet.Library.Update
import CellNet.Model.HelloIOCP
import Mathlib.Data.List.Perm.Basic

/-! The echo server never has two operations on one block, knows of each what it is, and owns each
open socket once. -/

namespace CellNet.HelloIOCP

open Library

/-- The operation is the one that the block is about. -/
structure IoDataBase.Fits (d : IoDataBase) (op : Overlapped) : Prop where
  iotype : d.iotype = some op.iotype
  sockfd : op.sockfd = d.sockfd
  valid : d.sockfd ≠ INVALID_SOCKET
  recv : op.iotype = .recv → op.len = IO_DATA_BUFF_SIZE
  send : op.iotype = .send → op.len = d.length ∧ 0 < d.length ∧ d.length ≤ IO_DATA_BUFF_SIZE

/-- A block, and the operations on it: one at most. -/
structure IoDataBase.SlotOk (d : IoDataBase) (ops : List Overlapped) : Prop where
  buffer : d.buffer.length = IO_DATA_BUFF_SIZE
  single : ops = [] ∨ ∃ op, ops = [op] ∧ d.Fits op

namespace HelloServer

variable {s t : HelloServer} {n i j : ℕ} {d : IoDataBase} {op : Overlapped}

/-- The outstanding operations on a block. -/
def ops (s : HelloServer) (i : ℕ) : List Overlapped :=
  s.pending.filter fun op => decide (op.slot = i)

def isOpen (sockfd : SOCKET) : Bool := decide (sockfd ≠ INVALID_SOCKET)

/-- The sockets that the server knows of. -/
def owned (s : HelloServer) : List SOCKET :=
  (s.sockServer :: (s.ioData.take s.posted).map IoDataBase.sockfd).filter isOpen

structure ServerOk (s : HelloServer) (n : ℕ) : Prop where
  acceptEx : s.acceptEx = true
  size : s.ioData.length = n
  posted : s.posted ≤ n
  slot : ∀ (i : ℕ) (d : IoDataBase), s.ioData[i]? = some d → d.SlotOk (s.ops i)
  unposted : ∀ i, s.posted ≤ i → s.ops i = []
  sockets : s.sockets.Perm s.owned
  nodup : s.sockets.Nodup

/-! ### Operations on a block -/

theorem mem_ops {op : Overlapped} : op ∈ s.ops i ↔ op ∈ s.pending ∧ op.slot = i := by
  simp [ops]

theorem ServerOk.slot_lt (h : s.ServerOk n) (ho : op ∈ s.pending) : op.slot < s.posted := by
  by_contra hge
  have hnil := h.unposted op.slot (not_lt.mp hge)
  have hmem : op ∈ s.ops op.slot := mem_ops.mpr ⟨ho, rfl⟩
  rw [hnil] at hmem
  cases hmem

/-- Whatever is outstanding is what its block is about. -/
theorem ServerOk.fits (h : s.ServerOk n) (ho : op ∈ s.pending) :
    ∃ d, s.ioData[op.slot]? = some d ∧ d.Fits op ∧ s.ops op.slot = [op] := by
  have hlt := h.slot_lt ho
  have hposted := h.posted
  have hsize := h.size
  have hd := List.getElem?_eq_getElem (show op.slot < s.ioData.length by omega)
  have hmem : op ∈ s.ops op.slot := mem_ops.mpr ⟨ho, rfl⟩
  rcases (h.slot _ _ hd).single with hnil | ⟨op', hone, hf⟩
  · rw [hnil] at hmem
    cases hmem
  · rw [hone] at hmem
    obtain rfl := List.mem_singleton.mp hmem
    exact ⟨_, hd, hf, hone⟩

theorem ops_erase (s : HelloServer) (op : Overlapped) (i : ℕ) :
    ops { s with pending := s.pending.erase op } i = (s.ops i).erase op :=
  (List.erase_filter ..).symm

/-- An operation is taken off the port. -/
theorem ServerOk.take (h : s.ServerOk n) (ho : op ∈ s.pending) :
    ServerOk { s with pending := s.pending.erase op } n ∧
      ops { s with pending := s.pending.erase op } op.slot = [] := by
  obtain ⟨d, hd, -, hone⟩ := h.fits ho
  have hempty : ops { s with pending := s.pending.erase op } op.slot = [] := by
    rw [ops_erase, hone, List.erase_cons_head]
  refine ⟨⟨h.acceptEx, h.size, h.posted, ?_, ?_, h.sockets, h.nodup⟩, hempty⟩
  · intro i e he
    by_cases hi : i = op.slot
    · subst hi
      exact ⟨(h.slot _ e he).buffer, .inl hempty⟩
    · have hsame : ops { s with pending := s.pending.erase op } i = s.ops i := by
        rw [ops_erase, List.erase_of_not_mem]
        exact fun hm => hi (mem_ops.mp hm).2.symm
      rw [hsame]
      exact h.slot i e he
  · intro i hi
    rw [ops_erase, h.unposted i hi]
    rfl

theorem ops_post (s : HelloServer) (d : IoDataBase) (op : Overlapped) (i : ℕ) (posted : Bool) :
    (s.post op.slot d op posted).ops i =
      if posted = true ∧ op.slot = i then op :: s.ops i else s.ops i := by
  cases posted with
  | false => simp [post, ops]
  | true =>
      by_cases hi : op.slot = i
      · simp [post, ops, hi]
      · simp [post, ops, hi]

/-! ### Sockets -/

/-- The sockets besides that of one block. -/
def others (s : HelloServer) (i : ℕ) : List SOCKET :=
  (s.sockServer :: ((s.ioData.take s.posted).eraseIdx i).map IoDataBase.sockfd).filter isOpen

theorem owned_perm (hi : i < s.posted) (hd : s.ioData[i]? = some d) :
    s.owned.Perm ([d.sockfd].filter isOpen ++ s.others i) := by
  have htake : i < (s.ioData.take s.posted).length := by
    have hlt := (List.getElem?_eq_some_iff.mp hd).1
    simp only [List.length_take]
    omega
  have hget : (s.ioData.take s.posted)[i] = d := by
    rw [List.getElem_take]
    exact (List.getElem?_eq_some_iff.mp hd).2
  have hperm := (List.getElem_cons_eraseIdx_perm htake).symm
  rw [hget] at hperm
  rw [owned, others, ← List.filter_append]
  apply List.Perm.filter
  exact ((hperm.map _).cons _).trans (List.Perm.swap ..)

theorem owned_set (hi : i < s.posted) (hd : s.ioData[i]? = some d) (e : IoDataBase) :
    (owned { s with ioData := s.ioData.set i e }).Perm
      ([e.sockfd].filter isOpen ++ s.others i) := by
  have hlt := (List.getElem?_eq_some_iff.mp hd).1
  have hset : (s.ioData.set i e)[i]? = some e := by
    rw [List.getElem?_set_self hlt]
  have hperm := owned_perm (s := { s with ioData := s.ioData.set i e }) hi hset
  have hothers : others { s with ioData := s.ioData.set i e } i = s.others i := by
    simp only [others, List.take_set, List.eraseIdx_set_eq]
  rwa [hothers] at hperm

/-- Nothing changes as long as the block keeps its socket. -/
theorem owned_keep (hi : i < s.posted) (hd : s.ioData[i]? = some d) {e : IoDataBase}
    (he : e.sockfd = d.sockfd) :
    s.owned.Perm (owned { s with ioData := s.ioData.set i e }) := by
  have hset := owned_set hi hd e
  rw [he] at hset
  exact (owned_perm hi hd).trans hset.symm

/-! ### The calls -/

/-- A block that nothing is outstanding on is written. -/
theorem ServerOk.write (h : s.ServerOk n) (hi : i < s.posted) (hd : s.ioData[i]? = some d)
    (hempty : s.ops i = []) {e : IoDataBase} (hs : e.sockfd = d.sockfd)
    (hb : e.buffer.length = IO_DATA_BUFF_SIZE) :
    ServerOk { s with ioData := s.ioData.set i e } n := by
  refine ⟨h.acceptEx, by simp [h.size], h.posted, ?_, h.unposted,
    h.sockets.trans (owned_keep hi hd hs), h.nodup⟩
  intro j x hj
  rcases getElem?_set_cases hj with ⟨rfl, rfl⟩ | ⟨-, hj⟩
  · exact ⟨hb, .inl hempty⟩
  · exact h.slot j x hj

/-- An operation is posted for a block that nothing is outstanding on. -/
theorem ServerOk.post (h : s.ServerOk n) (op : Overlapped) (hi : op.slot < s.posted)
    (hd : s.ioData[op.slot]? = some d) (hempty : s.ops op.slot = []) (posted : Bool)
    (hf : posted = true → d.Fits op) :
    ServerOk (s.post op.slot d op posted) n := by
  have hset : s.ioData.set op.slot d = s.ioData := by
    obtain ⟨hlt, hget⟩ := List.getElem?_eq_some_iff.mp hd
    rw [← hget, List.set_getElem_self]
  refine ⟨h.acceptEx, by simp [HelloServer.post, h.size], h.posted, ?_, ?_, ?_, h.nodup⟩
  · intro j x hj
    rw [HelloServer.post, hset] at hj
    rw [ops_post]
    split
    · next hc =>
        obtain ⟨hp, rfl⟩ := hc
        obtain rfl := Option.some.inj (hd.symm.trans hj)
        rw [hempty]
        exact ⟨(h.slot _ _ hd).buffer, .inr ⟨op, rfl, hf hp⟩⟩
    · exact h.slot j x hj
  · intro j hj
    rw [ops_post, if_neg]
    · exact h.unposted j hj
    · rintro ⟨-, rfl⟩
      exact absurd hi (not_lt.mpr hj)
  · have howned : (s.post op.slot d op posted).owned = s.owned := by
      rw [owned, HelloServer.post, hset]
      rfl
    rw [howned]
    exact h.sockets

theorem post_write (s : HelloServer) (i : ℕ) (d : IoDataBase) (op : Overlapped) (posted : Bool) :
    ({ s with ioData := s.ioData.set i d }).post i d op posted = s.post i d op posted := by
  simp [HelloServer.post, List.set_set]

/-- The block that waits for a client on the new socket. -/
def accepting (d : IoDataBase) (a : AcceptAnswer) : IoDataBase :=
  { d with iotype := some .accpet, sockfd := a.sockfd }

theorem accepting_fits {a : AcceptAnswer} (h : a.sockfd ≠ INVALID_SOCKET) :
    (accepting d a).Fits ⟨i, .accpet, a.sockfd, 0⟩ where
  iotype := rfl
  sockfd := rfl
  valid := h
  recv := by simp
  send := by simp

theorem Fresh.nodup {sockets : List SOCKET} {a : AcceptAnswer} (h : Fresh sockets a)
    (hn : sockets.Nodup) : ([a.sockfd].filter isOpen ++ sockets).Nodup := by
  rw [Fresh] at h
  by_cases ha : a.sockfd = INVALID_SOCKET
  · simpa [isOpen, ha] using hn
  · rw [if_neg ha] at h
    simpa [isOpen, ha] using ⟨h, hn⟩

theorem Fresh.valid {sockets : List SOCKET} {a : AcceptAnswer} (h : Fresh sockets a)
    (hp : a.posted = true) : a.sockfd ≠ INVALID_SOCKET := by
  intro ha
  rw [Fresh, if_pos ha, hp] at h
  cases h

theorem postAccept_eq (hx : s.acceptEx = true) (hd : s.ioData[i]? = some d) (a : AcceptAnswer) :
    s.postAccept i a =
      some ({ s with sockets := [a.sockfd].filter isOpen ++ s.sockets }.post i (accepting d a)
        ⟨i, .accpet, a.sockfd, 0⟩ a.posted) := by
  rw [postAccept, hd, Option.bind_eq_bind, Option.bind_some, if_pos hx]
  by_cases ha : a.sockfd = INVALID_SOCKET
  · simp [isOpen, ha, accepting]
  · simp [isOpen, ha, accepting]

/-- What a round of the first loop does, and what it leaves alone. -/
structure Started (s : HelloServer) (a : AcceptAnswer) (t : HelloServer) : Prop where
  running : t.running = s.running
  posted : t.posted = s.posted
  frame : ∀ j, j ≠ s.posted → t.ioData[j]? = s.ioData[j]? ∧ t.ops j = s.ops j
  accpet : ∀ op ∈ t.ops s.posted, op.iotype = .accpet
  count : t.pending.length + (if (HelloEvent.postAccept a).drops then 1 else 0) =
    s.pending.length + 1

/-- The block that is next in the first loop. -/
theorem ServerOk.start_postAccept (h : s.ServerOk n) (hlt : s.posted < n) {a : AcceptAnswer}
    (ha : Fresh s.sockets a) : ∃ t, s.postAccept s.posted a = some t ∧
      ServerOk { t with posted := s.posted + 1 } n ∧ s.Started a t := by
  have hlen : s.posted < s.ioData.length := h.size.symm ▸ hlt
  have hd := List.getElem?_eq_getElem hlen
  generalize s.ioData[s.posted] = d at hd
  have hempty := h.unposted s.posted le_rfl
  refine ⟨_, postAccept_eq h.acceptEx hd a, ?_⟩
  have hset : (s.ioData.set s.posted (accepting d a))[s.posted]? = some (accepting d a) := by
    rw [List.getElem?_set_self hlen]
  have hwritten : ServerOk { s with
      sockets := [a.sockfd].filter isOpen ++ s.sockets
      ioData := s.ioData.set s.posted (accepting d a)
      posted := s.posted + 1 } n := by
    refine ⟨h.acceptEx, by simp [h.size], hlt, ?_,
      fun i hi => h.unposted i (Nat.le_of_succ_le hi), ?_, ha.nodup h.nodup⟩
    · intro j x hj
      rcases getElem?_set_cases hj with ⟨rfl, rfl⟩ | ⟨-, hj⟩
      · exact ⟨(h.slot _ d hd).buffer, .inl hempty⟩
      · exact h.slot j x hj
    · have htake : (s.ioData.set s.posted (accepting d a)).take (s.posted + 1) =
          s.ioData.take s.posted ++ [accepting d a] := by
        rw [List.take_add_one, hset, List.take_set, List.set_eq_of_length_le (by simp)]
        rfl
      simp only [owned, htake, List.map_append, List.map_cons, List.map_nil, ← List.cons_append,
        List.filter_append]
      exact (List.perm_append_comm.trans (h.sockets.append_right _))
  have hposted := hwritten.post ⟨s.posted, .accpet, a.sockfd, 0⟩ (Nat.lt_succ_self _) hset
    hempty a.posted fun hp => accepting_fits (ha.valid hp)
  have heq := post_write { s with
      sockets := [a.sockfd].filter isOpen ++ s.sockets
      posted := s.posted + 1 } s.posted (accepting d a) ⟨s.posted, .accpet, a.sockfd, 0⟩ a.posted
  rw [heq] at hposted
  have hops : ∀ j, ({ s with sockets := [a.sockfd].filter isOpen ++ s.sockets }.post s.posted
      (accepting d a) ⟨s.posted, .accpet, a.sockfd, 0⟩ a.posted).ops j =
        if a.posted = true ∧ s.posted = j then ⟨s.posted, .accpet, a.sockfd, 0⟩ :: s.ops j
        else s.ops j :=
    fun j => ops_post _ _ ⟨s.posted, .accpet, a.sockfd, 0⟩ j a.posted
  refine ⟨hposted, rfl, rfl, ?_, ?_, ?_⟩
  · intro j hj
    rw [hops, if_neg fun hc => hj hc.2.symm, HelloServer.post, List.getElem?_set_ne (Ne.symm hj)]
    exact ⟨rfl, rfl⟩
  · intro o ho
    rw [hops, hempty] at ho
    split at ho
    · rw [List.mem_singleton.mp ho]
    · cases ho
  · rw [HelloEvent.drops, HelloServer.post]
    cases a.posted
    · simp
    · simp

/-- `closesocket`, and then `postAccept` on the same block. -/
theorem ServerOk.leave (h : s.ServerOk n) (hi : i < s.posted) (hd : s.ioData[i]? = some d)
    (hempty : s.ops i = []) (hv : d.sockfd ≠ INVALID_SOCKET) {a : AcceptAnswer}
    (ha : Fresh (s.sockets.erase d.sockfd) a) :
    ∃ sockets, s.leave i d a = some ({ s with sockets }.post i (accepting d a)
        ⟨i, .accpet, a.sockfd, 0⟩ a.posted) ∧
      ServerOk ({ s with sockets }.post i (accepting d a) ⟨i, .accpet, a.sockfd, 0⟩ a.posted)
        n := by
  have hlen := (List.getElem?_eq_some_iff.mp hd).1
  have hother : (s.sockets.erase d.sockfd).Perm (s.others i) := by
    have hperm := h.sockets.trans (owned_perm hi hd)
    have hone : [d.sockfd].filter isOpen = [d.sockfd] := by simp [isOpen, hv]
    rw [hone] at hperm
    have herase := hperm.erase d.sockfd
    rwa [List.singleton_append, List.erase_cons_head] at herase
  have hmem : d.sockfd ∈ s.sockets := by
    rw [(h.sockets.trans (owned_perm hi hd)).mem_iff]
    simp [isOpen, hv]
  have hclose : s.closesocket d.sockfd = some { s with sockets := s.sockets.erase d.sockfd } := by
    rw [closesocket, if_neg hv, if_pos hmem]
  refine ⟨[a.sockfd].filter isOpen ++ s.sockets.erase d.sockfd, ?_, ?_⟩
  · rw [HelloServer.leave, hclose, Option.bind_eq_bind, Option.bind_some]
    exact postAccept_eq (s := { s with sockets := s.sockets.erase d.sockfd }) h.acceptEx hd a
  · have hset : (s.ioData.set i (accepting d a))[i]? = some (accepting d a) := by
      rw [List.getElem?_set_self hlen]
    have hwritten : ServerOk { s with
        sockets := [a.sockfd].filter isOpen ++ s.sockets.erase d.sockfd
        ioData := s.ioData.set i (accepting d a) } n := by
      refine ⟨h.acceptEx, by simp [h.size], h.posted, ?_, h.unposted, ?_,
        ha.nodup (h.nodup.erase _)⟩
      · intro j x hj
        rcases getElem?_set_cases hj with ⟨rfl, rfl⟩ | ⟨-, hj⟩
        · exact ⟨(h.slot _ d hd).buffer, .inl hempty⟩
        · exact h.slot j x hj
      · exact (hother.append_left _).trans (owned_set hi hd (accepting d a)).symm
    have hposted := hwritten.post ⟨i, .accpet, a.sockfd, 0⟩ hi hset hempty
      a.posted fun hp => accepting_fits (ha.valid hp)
    have heq := post_write { s with
        sockets := [a.sockfd].filter isOpen ++ s.sockets.erase d.sockfd } i (accepting d a)
      ⟨i, .accpet, a.sockfd, 0⟩ a.posted
    rw [heq] at hposted
    exact hposted

/-- A block that keeps its socket is written and posted. -/
theorem ServerOk.rewrite (h : s.ServerOk n) (op : Overlapped) (hi : op.slot < s.posted)
    (hd : s.ioData[op.slot]? = some d) (hempty : s.ops op.slot = []) (e : IoDataBase)
    (hs : e.sockfd = d.sockfd) (hb : e.buffer = d.buffer) (posted : Bool) (hf : e.Fits op) :
    ServerOk (s.post op.slot e op posted) n := by
  have hlen := (List.getElem?_eq_some_iff.mp hd).1
  have hwritten := h.write hi hd hempty hs (hb ▸ (h.slot _ d hd).buffer)
  have hset : (s.ioData.set op.slot e)[op.slot]? = some e := by
    rw [List.getElem?_set_self hlen]
  rw [← post_write]
  exact hwritten.post op hi hset hempty posted fun _ => hf

theorem ServerOk.postRecv (h : s.ServerOk n) (hi : i < s.posted) (hd : s.ioData[i]? = some d)
    (hempty : s.ops i = []) (hv : d.sockfd ≠ INVALID_SOCKET) (posted : Bool) :
    s.postRecv i posted = some (s.post i { d with iotype := some .recv }
        ⟨i, .recv, d.sockfd, IO_DATA_BUFF_SIZE⟩ posted) ∧
      ServerOk (s.post i { d with iotype := some .recv }
        ⟨i, .recv, d.sockfd, IO_DATA_BUFF_SIZE⟩ posted) n := by
  constructor
  · rw [HelloServer.postRecv, hd]
    rfl
  · exact h.rewrite ⟨i, .recv, d.sockfd, IO_DATA_BUFF_SIZE⟩ hi hd hempty
      { d with iotype := some .recv } rfl rfl posted
      ⟨rfl, rfl, hv, fun _ => rfl, by simp⟩

theorem ServerOk.postSend (h : s.ServerOk n) (hi : i < s.posted) (hd : s.ioData[i]? = some d)
    (hempty : s.ops i = []) (hv : d.sockfd ≠ INVALID_SOCKET)
    (hl : 0 < d.length ∧ d.length ≤ IO_DATA_BUFF_SIZE) (posted : Bool) :
    s.postSend i posted = some (s.post i { d with iotype := some .send }
        ⟨i, .send, d.sockfd, d.length⟩ posted) ∧
      ServerOk (s.post i { d with iotype := some .send }
        ⟨i, .send, d.sockfd, d.length⟩ posted) n := by
  constructor
  · rw [HelloServer.postSend, hd]
    rfl
  · exact h.rewrite ⟨i, .send, d.sockfd, d.length⟩ hi hd hempty
      { d with iotype := some .send } rfl rfl posted
      ⟨rfl, rfl, hv, by simp, fun _ => ⟨rfl, hl⟩⟩

/-! ### A completion -/

/-- What is outstanding on the block behind a completion, and what the completion leaves alone. -/
structure Turned (s : HelloServer) (op : Overlapped) (bytes : List UInt8) (a : Answer)
    (t : HelloServer) : Prop where
  running : t.running = s.running
  posted : t.posted = s.posted
  frame : ∀ j, j ≠ op.slot → t.ioData[j]? = s.ioData[j]? ∧ t.ops j = s.ops j
  count : t.pending.length + (if (HelloEvent.completion op bytes a).drops then 1 else 0) =
    s.pending.length
  send : ∀ (e : IoDataBase), t.ioData[op.slot]? = some e → ∀ op' ∈ t.ops op.slot,
    op'.iotype = .send → op.iotype = .recv ∧ e.buffer.take op'.len.toNat = bytes
  recv : ∀ op' ∈ t.ops op.slot, op'.iotype = .recv → op.iotype ≠ .recv

/-- However the block was written in between, it ends with a post. -/
theorem Turned.of_post {bytes : List UInt8} {a : Answer} {x : HelloServer} (ho : op ∈ s.pending)
    (hr : x.running = s.running) (hp : x.posted = s.posted)
    (hx : x.pending = s.pending.erase op) (hempty : x.ops op.slot = [])
    (hframe : ∀ j, j ≠ op.slot → x.ioData[j]? = s.ioData[j]?)
    (hlen : op.slot < x.ioData.length) {o : Overlapped} (hslot : o.slot = op.slot)
    {posted : Bool} (hd : (HelloEvent.completion op bytes a).drops = !posted)
    (hsend : o.iotype = .send → op.iotype = .recv ∧ d.buffer.take o.len.toNat = bytes)
    (hrecv : o.iotype = .recv → op.iotype ≠ .recv) :
    Turned s op bytes a (x.post op.slot d o posted) := by
  have hops : ∀ j, (x.post op.slot d o posted).ops j =
      if posted = true ∧ op.slot = j then o :: x.ops j else x.ops j := by
    intro j
    have hpost := ops_post x d o j posted
    rwa [hslot] at hpost
  have hone : ∀ o' ∈ (x.post op.slot d o posted).ops op.slot, o' = o := by
    intro o' ho'
    rw [hops, hempty] at ho'
    split at ho'
    · exact List.mem_singleton.mp ho'
    · cases ho'
  refine ⟨hr, hp, ?_, ?_, ?_, ?_⟩
  · intro j hj
    constructor
    · rw [← hframe j hj, HelloServer.post, List.getElem?_set_ne (Ne.symm hj)]
    · rw [hops, if_neg fun hc => hj hc.2.symm, ops, hx]
      have hsame := ops_erase s op j
      rw [ops] at hsame
      rw [hsame, List.erase_of_not_mem]
      exact fun hm => hj (mem_ops.mp hm).2.symm
  · have hlength := List.length_erase_of_mem ho
    have hpos := List.length_pos_of_mem ho
    rw [hd, HelloServer.post, hx]
    cases posted
    · simp only [Bool.not_false, if_true, Bool.false_eq_true, if_false]
      omega
    · simp only [Bool.not_true, Bool.false_eq_true, if_false, if_true, List.length_cons]
      omega
  · intro e he o' ho' hs
    rw [HelloServer.post, List.getElem?_set_self hlen] at he
    obtain rfl := Option.some.inj he
    obtain rfl := hone o' ho'
    exact hsend hs
  · intro o' ho' hs
    obtain rfl := hone o' ho'
    exact hrecv hs

/-- The blocks that a completion finds when the kernel is done with its bytes. -/
theorem ServerOk.filled (h : s.ServerOk n) (ho : op ∈ s.pending) {bytes : List UInt8}
    (hm : s.Moves op bytes) : ∃ d, d.Fits op ∧ op.sockfd = d.sockfd ∧
      (op.iotype = .recv → d.buffer.take bytes.length = bytes ∧
        bytes.length ≤ IO_DATA_BUFF_SIZE) ∧
      ∀ x, x = { s with pending := s.pending.erase op }.fill op bytes →
        x.ServerOk n ∧ x.ioData[op.slot]? = some d ∧ x.ops op.slot = [] ∧
        x.sockets = s.sockets ∧ x.running = s.running ∧ x.posted = s.posted ∧
        x.pending = s.pending.erase op ∧ ∀ j, j ≠ op.slot → x.ioData[j]? = s.ioData[j]? := by
  obtain ⟨htake, hempty⟩ := h.take ho
  obtain ⟨d, hd, hf, -⟩ := h.fits ho
  have hlt := h.slot_lt ho
  have hlen := (List.getElem?_eq_some_iff.mp hd).1
  cases hop : op.iotype with
  | recv =>
      have hbytes : bytes.length ≤ IO_DATA_BUFF_SIZE := by
        rw [HelloServer.Moves, hop] at hm
        have hmax := hf.recv hop
        dsimp only at hm
        omega
      have hbuffer := (h.slot _ d hd).buffer
      refine ⟨{ d with buffer := blit d.buffer 0 bytes },
        ⟨hf.iotype, hf.sockfd, hf.valid, hf.recv, hf.send⟩, hf.sockfd,
        fun _ => ⟨take_blit_zero .., hbytes⟩, ?_⟩
      rintro x rfl
      have hfill : { s with pending := s.pending.erase op }.fill op bytes =
          { s with
            pending := s.pending.erase op
            ioData := s.ioData.set op.slot { d with buffer := blit d.buffer 0 bytes } } := by
        simp only [fill, hop, hd]
      have hwritten := htake.write hlt hd hempty
        (e := { d with buffer := blit d.buffer 0 bytes }) rfl
        (by rw [length_blit (by omega), hbuffer])
      rw [hfill]
      refine ⟨hwritten, List.getElem?_set_self hlen, hempty, rfl, rfl, rfl, rfl, ?_⟩
      intro j hj
      exact List.getElem?_set_ne (Ne.symm hj)
  | _ =>
      refine ⟨d, hf, hf.sockfd, by simp, ?_⟩
      rintro x rfl
      have hfill : { s with pending := s.pending.erase op }.fill op bytes =
          { s with pending := s.pending.erase op } := by
        simp only [fill, hop]
      rw [hfill]
      exact ⟨htake, hd, hempty, rfl, rfl, rfl, rfl, fun _ _ => rfl⟩

/-- A completion is handled as what it is, and leaves the server sound. -/
theorem ServerOk.completion (h : s.ServerOk n) (ho : op ∈ s.pending) {bytes : List UInt8}
    {a : Answer} (hm : s.Moves op bytes) (ha : Fresh (s.sockets.erase op.sockfd) a.accept) :
    ∃ t, s.next (.completion op bytes a) = some t ∧ t.ServerOk n ∧ Turned s op bytes a t := by
  obtain ⟨d, hf, hsock, hbuffer, hx⟩ := h.filled ho hm
  generalize hxe : { s with pending := s.pending.erase op }.fill op bytes = x at hx
  obtain ⟨hok, hd, hempty, hsockets, hrun, hposted, hpending, hframe⟩ := hx x rfl
  have hlt : op.slot < x.posted := hposted ▸ h.slot_lt ho
  have hlen := (List.getElem?_eq_some_iff.mp hd).1
  have hfresh : Fresh (x.sockets.erase d.sockfd) a.accept := by rwa [hsockets, ← hsock]
  have hleave : (HelloEvent.completion op bytes a).drops = !a.accept.posted →
      ∃ t, x.leave op.slot d a.accept = some t ∧ t.ServerOk n ∧ Turned s op bytes a t := by
    intro hdrops
    obtain ⟨sockets, hl, hok'⟩ := hok.leave hlt hd hempty hf.valid hfresh
    refine ⟨_, hl, hok', .of_post (x := { x with sockets }) ho hrun hposted hpending hempty hframe
      hlen ?_ hdrops ?_ ?_⟩
    · rfl
    · simp
    · simp
  have hnext : s.next (.completion op bytes a) = x.onEvent op.slot bytes.length a := by
    rw [HelloServer.next, hxe]
  rw [hnext, onEvent, hd, Option.bind_eq_bind, Option.bind_some, hf.iotype]
  cases hop : op.iotype with
  | accpet =>
      dsimp only
      split
      · next hreg =>
          obtain ⟨hp, hok'⟩ := hok.postRecv hlt hd hempty hf.valid a.posted
          refine ⟨_, hp, hok', .of_post ho hrun hposted hpending hempty hframe hlen ?_ ?_ ?_ ?_⟩
          · rfl
          · simp [HelloEvent.drops, hop, hreg]
          · simp
          · simp [hop]
      · next hreg => exact hleave (by simp [HelloEvent.drops, hop, hreg])
  | recv =>
      dsimp only
      split
      · next hnil =>
          have hb : bytes = [] := List.length_eq_zero_iff.mp (by omega)
          exact hleave (by simp [HelloEvent.drops, hop, hb])
      · next hpos =>
          obtain ⟨htake, hmax⟩ := hbuffer hop
          have hset : (x.setLength op.slot d bytes.length).ioData[op.slot]? =
              some { d with length := bytes.length } := List.getElem?_set_self hlen
          have hok₁ := hok.write hlt hd hempty (e := { d with length := bytes.length }) rfl
            (hok.slot _ d hd).buffer
          obtain ⟨hp, hok'⟩ := ServerOk.postSend (s := x.setLength op.slot d bytes.length) hok₁ hlt
            hset hempty hf.valid ⟨by dsimp only; omega, by dsimp only; omega⟩ a.posted
          refine ⟨_, hp, hok', .of_post (x := x.setLength op.slot d bytes.length) ho hrun hposted
            hpending hempty ?_ ?_ ?_ ?_ ?_ ?_⟩
          · intro j hj
            rw [← hframe j hj]
            exact List.getElem?_set_ne (Ne.symm hj)
          · simpa [setLength] using hlen
          · rfl
          · have hb : bytes ≠ [] := by
              rintro rfl
              simp at hpos
            simp [HelloEvent.drops, hop, hb]
          · intro _
            exact ⟨hop, by simpa using htake⟩
          · simp
  | send =>
      dsimp only
      split
      · next hnil =>
          have hb : bytes = [] := List.length_eq_zero_iff.mp (by omega)
          exact hleave (by simp [HelloEvent.drops, hop, hb])
      · next hpos =>
          have hset : (x.setLength op.slot d 0).ioData[op.slot]? =
              some { d with length := 0 } := List.getElem?_set_self hlen
          have hok₁ := hok.write hlt hd hempty (e := { d with length := 0 }) rfl
            (hok.slot _ d hd).buffer
          obtain ⟨hp, hok'⟩ := ServerOk.postRecv (s := x.setLength op.slot d 0) hok₁ hlt
            hset hempty hf.valid a.posted
          refine ⟨_, hp, hok', .of_post (x := x.setLength op.slot d 0) ho hrun hposted
            hpending hempty ?_ ?_ ?_ ?_ ?_ ?_⟩
          · intro j hj
            rw [← hframe j hj]
            exact List.getElem?_set_ne (Ne.symm hj)
          · simpa [setLength] using hlen
          · rfl
          · have hb : bytes ≠ [] := by
              rintro rfl
              simp at hpos
            simp [HelloEvent.drops, hop, hb]
          · simp
          · simp [hop]

end HelloServer

end CellNet.HelloIOCP
