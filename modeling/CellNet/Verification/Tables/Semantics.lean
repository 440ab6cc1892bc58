import CellNet.Model.CellServer
import Mathlib.Data.List.Range

/-! Where the clients of a server are. The roster lists those in a table, those that wait
in a buffer and those that are only kept for an operation still under way, and says what the
heap, the sockets, the registrations and the counters have to do with them. Whatever a
worker does to its clients is one of a few moves. -/

namespace CellNet

open Library

/-- A client in the table of the worker `id`, under the key `sockfd`. -/
structure Seat where
  id : ℤ
  sockfd : SOCKET
  ptr : Ptr
deriving DecidableEq

def members (seated : List Seat) (waiting detached : List Ptr) : List Ptr :=
  seated.map Seat.ptr ++ waiting ++ detached

/-- Every client ever accepted is either in one table or buffer, or detached, or has left,
and only once; the clients that have not left are the objects that live. -/
structure Roster (cap : ℤ) (n : Net) (seated : List Seat) (waiting detached : List Ptr) :
    Prop where
  ledger : (members seated waiting detached ++ n.left).Perm (List.range n.heap.next)
  live : ∀ p, p ∈ members seated waiting detached ↔ ∃ fd, n.sockfd? p = some fd
  keys : ∀ x ∈ seated, n.sockfd? x.ptr = some x.sockfd
  socks : ∀ p q fd, fd ≠ SOCKET_ERROR → n.sockfd? p = some fd → n.sockfd? q = some fd → p = q
  closed : ∀ p, n.sockfd? p = some SOCKET_ERROR ↔ p ∈ detached
  opens : ∀ fd, fd ∈ n.openSocks ↔ fd ≠ SOCKET_ERROR ∧ ∃ p, n.sockfd? p = some fd
  openNodup : n.openSocks.Nodup
  registered : ∀ g ∈ n.registered, (⟨g.epfd, g.sockfd, g.ptr⟩ : Seat) ∈ seated
  accepted : n.clientAccept = seated.length + waiting.length + detached.length
  joined : n.clientJoin = seated.length + detached.length
  bound : n.clientAccept ≤ cap

theorem members_waiting_cons (seated : List Seat) (p : Ptr) (waiting detached : List Ptr) :
    (members seated (p :: waiting) detached).Perm (p :: members seated waiting detached) :=
  List.perm_middle.append_right _

theorem members_detached_cons (seated : List Seat) (p : Ptr) (waiting detached : List Ptr) :
    (members seated waiting (p :: detached)).Perm (p :: members seated waiting detached) :=
  List.perm_middle

theorem members_perm {seated seated' : List Seat} {waiting waiting' detached detached' : List Ptr}
    (hs : seated.Perm seated') (hw : waiting.Perm waiting') (hd : detached.Perm detached') :
    (members seated waiting detached).Perm (members seated' waiting' detached') :=
  ((hs.map Seat.ptr).append hw).append hd

namespace Net

theorem sockfd?_eq_some {n : Net} {p : Ptr} {fd : SOCKET} :
    n.sockfd? p = some fd ↔ ∃ c, n.heap.get? p = some c ∧ c.sockfd = fd :=
  Option.map_eq_some_iff

theorem sockfd?_setClient {n : Net} {p : Ptr} {c : CellClient} (hc : n.heap.get? p = some c)
    (c' : CellClient) (q : Ptr) :
    (n.setClient p c').sockfd? q = if q = p then some c'.sockfd else n.sockfd? q := by
  rw [sockfd?, setClient, Heap.get?_set hc, sockfd?]
  split <;> rfl

theorem sockfd?_next (n : Net) : n.sockfd? n.heap.next = none := by
  cases hs : n.sockfd? n.heap.next with
  | none => rfl
  | some fd =>
      rcases sockfd?_eq_some.mp hs with ⟨c, hc, _⟩
      exact absurd (Heap.lt_next hc) (Nat.lt_irrefl _)

theorem sockfd?_newClient (n : Net) (cSock : SOCKET) (c : CellClient) (q : Ptr) :
    ((n.accept cSock).newClient c).sockfd? q =
      if q = n.heap.next then some c.sockfd else n.sockfd? q := by
  rw [sockfd?, newClient, Heap.get?_alloc, sockfd?, accept]
  split <;> rfl

/-- The net after the client `p` with the socket `fd` was deleted. -/
structure Deleted (n : Net) (p : Ptr) (fd : SOCKET) (n' : Net) : Prop where
  get? : ∀ q, n'.heap.get? q = if q = p then none else n.heap.get? q
  next : n'.heap.next = n.heap.next
  openSocks : n'.openSocks = n.openSocks.erase fd
  registered : ∀ g ∈ n'.registered, g ∈ n.registered ∧ (fd ≠ SOCKET_ERROR → g.sockfd ≠ fd)
  left : n'.left = n.left
  clientAccept : n'.clientAccept = n.clientAccept
  clientJoin : n'.clientJoin = n.clientJoin

theorem Deleted.sockfd? {n n' : Net} {p : Ptr} {fd : SOCKET} (h : n.Deleted p fd n') (q : Ptr) :
    n'.sockfd? q = if q = p then none else n.sockfd? q := by
  rw [Net.sockfd?, h.get?, Net.sockfd?]
  split <;> rfl

theorem destroySocket_accept (n : Net) (cSock : SOCKET) :
    (n.accept cSock).destroySocket cSock = some ((n.accept cSock).close cSock) :=
  if_pos List.mem_cons_self

/-- The socket `fd` of `p` was closed, and `p` does not use it any more. -/
structure Closed (n : Net) (p : Ptr) (fd : SOCKET) (n' : Net) : Prop where
  openSocks : n'.openSocks = n.openSocks.erase fd
  others : ∀ q, q ≠ p → n'.sockfd? q = n.sockfd? q
  self : ∀ fd', n'.sockfd? p = some fd' → fd' = SOCKET_ERROR

theorem Closed.old {n n' : Net} {p q : Ptr} {fd fd' : SOCKET} (h : n.Closed p fd n')
    (hfd : fd' ≠ SOCKET_ERROR) (hq : n'.sockfd? q = some fd') :
    q ≠ p ∧ n.sockfd? q = some fd' := by
  have hqp : q ≠ p := by
    rintro rfl
    exact hfd (h.self fd' hq)
  exact ⟨hqp, h.others q hqp ▸ hq⟩

theorem Deleted.closed {n n' : Net} {p : Ptr} {fd : SOCKET} (h : n.Deleted p fd n') :
    n.Closed p fd n' where
  openSocks := h.openSocks
  others q hq := by rw [h.sockfd?, if_neg hq]
  self fd' hp := by
    rw [h.sockfd?, if_pos rfl] at hp
    cases hp

theorem destroy_spec {n n' : Net} {p : Ptr} (h : n.destroy p = some n') :
    n'.heap.next = n.heap.next ∧ n'.clientAccept = n.clientAccept ∧ n'.left = n.left := by
  rw [destroy] at h
  obtain ⟨c, -, h⟩ := Option.bind_eq_some_iff.mp h
  split at h
  · obtain ⟨m, hm, rfl⟩ := Option.map_eq_some_iff.mp h
    rw [destroySocket] at hm
    split at hm
    · obtain rfl := Option.some.inj hm
      exact ⟨Heap.next_set .., rfl, rfl⟩
    · cases hm
  · obtain rfl := Option.some.inj h
    exact ⟨rfl, rfl, rfl⟩

theorem delete_spec {n n' : Net} {p : Ptr} (h : n.delete p = some n') :
    n'.clientAccept = n.clientAccept ∧ n'.left = n.left := by
  obtain ⟨m, hm, rfl⟩ := Option.map_eq_some_iff.mp h
  have hd : m.clientAccept = n.clientAccept ∧ m.left = n.left := (destroy_spec hm).2
  exact hd

/-- A client can be deleted when its socket is open, or was closed before. -/
theorem delete_eq_some {n : Net} {p : Ptr} {c : CellClient} (hc : n.heap.get? p = some c)
    (ho : c.sockfd ≠ SOCKET_ERROR → c.sockfd ∈ n.openSocks) (hv : SOCKET_ERROR ∉ n.openSocks) :
    ∃ n', n.delete p = some n' ∧ n.Deleted p c.sockfd n' := by
  rw [delete, destroy, hc, Option.bind_eq_bind, Option.bind_some]
  by_cases hs : SOCKET_ERROR ≠ c.sockfd
  · rw [if_pos hs, destroySocket, if_pos (ho (Ne.symm hs))]
    refine ⟨_, rfl, fun q => ?_, ?_, rfl, fun g hg => ?_, rfl, rfl, rfl⟩
    · dsimp only [setClient, close]
      rw [Heap.free_set, Heap.get?_free]
    · dsimp only [setClient, close]
      rw [Heap.next_free, Heap.next_set]
    · exact (List.mem_filter.mp hg).imp_right fun h _ => of_decide_eq_true h
  · have he : c.sockfd = SOCKET_ERROR := (not_not.mp hs).symm
    rw [if_neg hs]
    refine ⟨_, rfl, fun q => Heap.get?_free .., Heap.next_free .., ?_, fun g hg => ⟨hg, ?_⟩,
      rfl, rfl, rfl⟩
    · rw [he, List.erase_of_not_mem hv]
    · exact fun h => absurd he h

end Net

/-- Nothing has happened yet. -/
theorem Roster.new {cap : ℤ} (h : 0 ≤ cap) : Roster cap .new [] [] [] where
  ledger := .refl _
  live p := by simp [members, Net.new, Net.sockfd?]
  keys := nofun
  socks p q fd _ hp := by simp [Net.new, Net.sockfd?] at hp
  closed p := by simp [Net.new, Net.sockfd?]
  opens fd := by simp [Net.new, Net.sockfd?]
  openNodup := .nil
  registered := nofun
  accepted := rfl
  joined := rfl
  bound := h

namespace Roster

variable {cap : ℤ} {n n' : Net} {seated seated' : List Seat}
  {waiting waiting' detached detached' : List Ptr}

theorem perm (h : Roster cap n seated waiting detached) (hs : seated.Perm seated')
    (hw : waiting.Perm waiting') (hd : detached.Perm detached') :
    Roster cap n seated' waiting' detached' where
  ledger := ((members_perm hs hw hd).symm.append_right _).trans h.ledger
  live p := by
    rw [← h.live]
    exact (members_perm hs hw hd).symm.mem_iff
  keys x hx := h.keys x (hs.mem_iff.mpr hx)
  socks := h.socks
  closed p := by rw [h.closed, hd.mem_iff]
  opens := h.opens
  openNodup := h.openNodup
  registered g hg := hs.mem_iff.mp (h.registered g hg)
  accepted := by rw [h.accepted, hs.length_eq, hw.length_eq, hd.length_eq]
  joined := by rw [h.joined, hs.length_eq, hd.length_eq]
  bound := h.bound

/-- Nothing but data of the clients and registrations of seated clients has changed. -/
theorem congr (h : Roster cap n seated waiting detached)
    (hs : ∀ p, n'.sockfd? p = n.sockfd? p) (hn : n'.heap.next = n.heap.next)
    (hl : n'.left = n.left) (ho : n'.openSocks = n.openSocks)
    (ha : n'.clientAccept = n.clientAccept) (hj : n'.clientJoin = n.clientJoin)
    (hr : ∀ g ∈ n'.registered, (⟨g.epfd, g.sockfd, g.ptr⟩ : Seat) ∈ seated) :
    Roster cap n' seated waiting detached where
  ledger := by rw [hl, hn]; exact h.ledger
  live p := by rw [h.live, hs]
  keys x hx := by rw [hs]; exact h.keys x hx
  socks p q fd := by rw [hs, hs]; exact h.socks p q fd
  closed p := by rw [hs]; exact h.closed p
  opens fd := by rw [ho, h.opens]; simp only [hs]
  openNodup := by rw [ho]; exact h.openNodup
  registered := hr
  accepted := by rw [ha]; exact h.accepted
  joined := by rw [hj]; exact h.joined
  bound := by rw [ha]; exact h.bound

theorem setClient (h : Roster cap n seated waiting detached) {p : Ptr} {c d : CellClient}
    (hc : n.heap.get? p = some c) (hs : d.sockfd = c.sockfd) :
    Roster cap (n.setClient p d) seated waiting detached := by
  refine h.congr (fun q => ?_) (Heap.next_set ..) rfl rfl rfl rfl h.registered
  rw [Net.sockfd?_setClient hc]
  split
  · next hq => rw [hq, hs, Net.sockfd?, hc, Option.map_some]
  · rfl

theorem get?_of_seated (h : Roster cap n seated waiting detached) {x : Seat} (hx : x ∈ seated) :
    ∃ c, n.heap.get? x.ptr = some c ∧ c.sockfd = x.sockfd :=
  Net.sockfd?_eq_some.mp (h.keys x hx)

theorem nodup (h : Roster cap n seated waiting detached) :
    (members seated waiting detached).Nodup :=
  (h.ledger.symm.nodup List.nodup_range).of_append_left

theorem error_not_open (h : Roster cap n seated waiting detached) :
    SOCKET_ERROR ∉ n.openSocks :=
  fun hm => ((h.opens _).mp hm).1 rfl

/-- Sockets stay distinct when one is closed. -/
theorem socks_of_closed (h : Roster cap n seated waiting detached) {p : Ptr} {fd : SOCKET}
    (hc : n.Closed p fd n') {q r : Ptr} {fd' : SOCKET} (hfd : fd' ≠ SOCKET_ERROR)
    (hq : n'.sockfd? q = some fd') (hr : n'.sockfd? r = some fd') : q = r :=
  h.socks q r fd' hfd (hc.old hfd hq).2 (hc.old hfd hr).2

/-- The open sockets are those still in use when one is closed. -/
theorem opens_of_closed (h : Roster cap n seated waiting detached) {p : Ptr} {fd : SOCKET}
    (hp : n.sockfd? p = some fd) (hc : n.Closed p fd n') (fd' : SOCKET) :
    fd' ∈ n'.openSocks ↔ fd' ≠ SOCKET_ERROR ∧ ∃ q, n'.sockfd? q = some fd' := by
  rw [hc.openSocks, h.openNodup.mem_erase_iff, h.opens]
  constructor
  · rintro ⟨hfd, hv, q, hq⟩
    refine ⟨hv, q, ?_⟩
    rw [hc.others, hq]
    rintro rfl
    exact hfd (Option.some.inj (hq.symm.trans hp))
  · rintro ⟨hv, q, hq⟩
    rcases hc.old hv hq with ⟨hqp, hq⟩
    refine ⟨?_, hv, q, hq⟩
    rintro rfl
    exact hqp (h.socks q p fd' hv hq hp)

/-- A client that is not detached has its socket open. -/
theorem valid (h : Roster cap n seated waiting detached) {p : Ptr}
    (hp : p ∈ seated.map Seat.ptr ++ waiting) {fd : SOCKET} (hs : n.sockfd? p = some fd) :
    fd ≠ SOCKET_ERROR ∧ fd ∈ n.openSocks := by
  have hne : fd ≠ SOCKET_ERROR := by
    rintro rfl
    exact List.disjoint_of_nodup_append h.nodup hp ((h.closed p).mp hs)
  exact ⟨hne, (h.opens fd).mpr ⟨hne, p, hs⟩⟩

/-- A client that waits is live, and no table has a key for its socket. -/
theorem get?_of_waiting (h : Roster cap n seated waiting detached) {p : Ptr}
    (hp : p ∈ waiting) :
    ∃ c, n.heap.get? p = some c ∧ ∀ x ∈ seated, x.sockfd ≠ c.sockfd := by
  have hm : p ∈ seated.map Seat.ptr ++ waiting := List.mem_append_right _ hp
  rcases (h.live p).mp (List.mem_append_left _ hm) with ⟨fd, hfd⟩
  rcases Net.sockfd?_eq_some.mp hfd with ⟨c, hc, rfl⟩
  refine ⟨c, hc, fun x hx hk => ?_⟩
  have hxp : x.ptr = p := h.socks _ _ _ (h.valid hm hfd).1 (hk ▸ h.keys x hx) hfd
  have hd := List.disjoint_of_nodup_append h.nodup.of_append_left
  exact hd (List.mem_map_of_mem hx) (hxp ▸ hp)

/-! ### The moves -/

/-- An accepted connection becomes a client that waits. -/
theorem accept (h : Roster cap n seated waiting detached) {c : CellClient}
    (hf : c.sockfd ∉ n.openSocks) (hv : c.sockfd ≠ SOCKET_ERROR) (hb : n.clientAccept < cap) :
    Roster cap ((n.accept c.sockfd).newClient c) seated (n.heap.next :: waiting) detached := by
  generalize hn' : (n.accept c.sockfd).newClient c = n'
  have hs : ∀ q, n'.sockfd? q = if q = n.heap.next then some c.sockfd else n.sockfd? q :=
    fun q => hn' ▸ Net.sockfd?_newClient n c.sockfd c q
  have hold : ∀ q fd, n.sockfd? q = some fd → n'.sockfd? q = some fd := by
    intro q fd hq
    rw [hs, if_neg, hq]
    rintro rfl
    rw [Net.sockfd?_next] at hq
    cases hq
  have hnew : ∀ q fd, n'.sockfd? q = some fd →
      (q = n.heap.next ∧ fd = c.sockfd) ∨ n.sockfd? q = some fd ∧ fd ≠ c.sockfd := by
    intro q fd hq
    rw [hs] at hq
    split at hq
    · next he => exact .inl ⟨he, (Option.some.inj hq).symm⟩
    · refine .inr ⟨hq, ?_⟩
      rintro rfl
      exact hf ((h.opens _).mpr ⟨hv, q, hq⟩)
  have hself : n'.sockfd? n.heap.next = some c.sockfd := by rw [hs, if_pos rfl]
  have hmem := members_waiting_cons seated n.heap.next waiting detached
  constructor
  case ledger =>
    have hr : n'.heap.next = n.heap.next + 1 := by rw [← hn']; exact Heap.next_alloc ..
    have hl : n'.left = n.left := by rw [← hn']; rfl
    rw [hr, hl, List.range_succ]
    refine ((hmem.append_right _).trans ?_).trans (List.perm_append_singleton _ _).symm
    exact h.ledger.cons _
  case live =>
    intro p
    rw [hmem.mem_iff]
    constructor
    · intro hp
      rcases List.mem_cons.mp hp with rfl | hp
      · exact ⟨_, hself⟩
      · exact ((h.live p).mp hp).imp fun fd => hold p fd
    · rintro ⟨fd, hp⟩
      rcases hnew p fd hp with ⟨rfl, -⟩ | ⟨hp, -⟩
      · exact List.mem_cons_self
      · exact List.mem_cons_of_mem _ ((h.live p).mpr ⟨fd, hp⟩)
  case keys => exact fun x hx => hold _ _ (h.keys x hx)
  case socks =>
    intro p q fd hfd hp hq
    rcases hnew p fd hp with ⟨rfl, rfl⟩ | ⟨hp, hne⟩ <;>
      rcases hnew q _ hq with ⟨rfl, he⟩ | ⟨hq, hne'⟩
    · rfl
    · exact absurd rfl hne'
    · exact absurd he hne
    · exact h.socks p q fd hfd hp hq
  case closed =>
    intro p
    rw [← h.closed]
    constructor
    · intro hp
      rcases hnew p _ hp with ⟨-, he⟩ | ⟨hp, -⟩
      · exact absurd he.symm hv
      · exact hp
    · exact hold p _
  case opens =>
    intro fd
    have ho : n'.openSocks = c.sockfd :: n.openSocks := by rw [← hn']; rfl
    rw [ho, List.mem_cons, h.opens]
    constructor
    · rintro (rfl | ⟨hfd, p, hp⟩)
      · exact ⟨hv, _, hself⟩
      · exact ⟨hfd, p, hold p fd hp⟩
    · rintro ⟨hfd, p, hp⟩
      exact (hnew p fd hp).imp And.right fun hp => ⟨hfd, p, hp.1⟩
  case openNodup =>
    rw [← hn']
    exact List.nodup_cons.mpr ⟨hf, h.openNodup⟩
  case registered =>
    rw [← hn']
    exact h.registered
  case accepted =>
    have ha := h.accepted
    have hc : n'.clientAccept = n.clientAccept + 1 := by rw [← hn']; rfl
    rw [hc, List.length_cons]
    omega
  case joined =>
    rw [← hn']
    exact h.joined
  case bound =>
    rw [← hn']
    exact Int.add_one_le_iff.mpr hb

/-- A connection that is turned down leaves nothing behind. -/
theorem refuse (h : Roster cap n seated waiting detached) (cSock : SOCKET) :
    Roster cap ((n.accept cSock).close cSock) seated waiting detached := by
  have ho : ((n.accept cSock).close cSock).openSocks = n.openSocks := List.erase_cons_head ..
  refine h.congr (fun _ => rfl) rfl rfl ho rfl rfl fun g hg => ?_
  exact h.registered g (List.mem_filter.mp hg).1

/-- A client that waited is taken up. -/
theorem seat {p : Ptr} {fd : SOCKET} (h : Roster cap n seated (p :: waiting) detached)
    (hp : n.sockfd? p = some fd) (id : ℤ) :
    Roster cap n.onNetJoin (⟨id, fd, p⟩ :: seated) waiting detached where
  ledger := ((members_waiting_cons ..).symm.append_right _).trans h.ledger
  live q := by
    have hm := (members_waiting_cons seated p waiting detached).symm.mem_iff (a := q)
    exact hm.trans (h.live q)
  keys x hx := by
    rcases List.mem_cons.mp hx with rfl | hx
    · exact hp
    · exact h.keys x hx
  socks := h.socks
  closed := h.closed
  opens := h.opens
  openNodup := h.openNodup
  registered g hg := List.mem_cons_of_mem _ (h.registered g hg)
  accepted := by
    have ha := h.accepted
    have hc : n.onNetJoin.clientAccept = n.clientAccept := rfl
    rw [List.length_cons] at ha ⊢
    omega
  joined := by
    have hj := h.joined
    have hc : n.onNetJoin.clientJoin = n.clientJoin + 1 := rfl
    rw [List.length_cons]
    omega
  bound := h.bound

/-- A member that is deleted after `OnNetLeave`, whichever list it was in. -/
theorem gone (h : Roster cap n seated waiting detached) {p : Ptr} {fd : SOCKET}
    (hp : n.sockfd? p = some fd) (hd : (n.onNetLeave p).Deleted p fd n')
    (hm : (members seated waiting detached).Perm (p :: members seated' waiting detached'))
    (hs : ∀ x ∈ seated', x ∈ seated) (hdet : ∀ q, q ∈ detached' ↔ q ∈ detached ∧ q ≠ p)
    (hr : ∀ g ∈ n'.registered, (⟨g.epfd, g.sockfd, g.ptr⟩ : Seat) ∈ seated')
    (hl : seated.length + detached.length = seated'.length + detached'.length + 1) :
    Roster cap n' seated' waiting detached' := by
  have hc : n.Closed p fd n' := ⟨hd.openSocks, hd.closed.others, hd.closed.self⟩
  have hold : ∀ q fd, n'.sockfd? q = some fd → q ≠ p ∧ n.sockfd? q = some fd := by
    intro q fd hq
    rw [hd.sockfd?] at hq
    split at hq
    · cases hq
    · exact ⟨‹_›, hq⟩
  have hnot : p ∉ members seated' waiting detached' :=
    (List.nodup_cons.mp (hm.nodup_iff.mp h.nodup)).1
  have hlen := hm.length_eq
  simp only [members, List.length_append, List.length_map, List.length_cons] at hlen
  constructor
  case ledger =>
    rw [hd.next, hd.left]
    have hledger := (hm.append_right n.left).symm.trans h.ledger
    refine List.Perm.trans ?_ hledger
    rw [Net.onNetLeave, ← List.append_assoc]
    exact List.perm_append_singleton ..
  case live =>
    intro q
    constructor
    · intro hq
      have hqp : q ≠ p := fun he => hnot (he ▸ hq)
      rw [hc.others q hqp, ← h.live, hm.mem_iff]
      exact List.mem_cons_of_mem _ hq
    · rintro ⟨fd, hq⟩
      rcases hold q fd hq with ⟨hqp, hq⟩
      exact List.mem_of_ne_of_mem hqp (hm.mem_iff.mp ((h.live q).mpr ⟨fd, hq⟩))
  case keys =>
    intro x hx
    have hxp : x.ptr ≠ p := by
      rintro rfl
      exact hnot (List.mem_append_left _ (List.mem_append_left _ (List.mem_map_of_mem hx)))
    rw [hc.others _ hxp]
    exact h.keys x (hs x hx)
  case socks => exact fun q r fd' => h.socks_of_closed hc
  case closed =>
    intro q
    rw [hdet, ← h.closed]
    constructor
    · exact fun hq => (hold q _ hq).symm
    · exact fun hq => (hc.others q hq.2).trans hq.1
  case opens => exact h.opens_of_closed hp hc
  case openNodup => exact hc.openSocks ▸ h.openNodup.erase fd
  case registered => exact hr
  case accepted =>
    have ha := h.accepted
    have hc : n'.clientAccept = n.clientAccept - 1 := hd.clientAccept
    omega
  case joined =>
    have hj := h.joined
    have hc : n'.clientJoin = n.clientJoin - 1 := hd.clientJoin
    omega
  case bound =>
    have hb := h.bound
    have hc : n'.clientAccept = n.clientAccept - 1 := hd.clientAccept
    omega

/-- `OnNetLeave` and `delete` for a seated client: they succeed, and it is gone. -/
theorem release {x : Seat} (h : Roster cap n (x :: seated) waiting detached) :
    ∃ n', (n.onNetLeave x.ptr).delete x.ptr = some n' ∧ (n.onNetLeave x.ptr).Deleted x.ptr
      x.sockfd n' ∧ Roster cap n' seated waiting detached := by
  have hx := h.keys x List.mem_cons_self
  rcases h.get?_of_seated List.mem_cons_self with ⟨c, hc, hk⟩
  have hv := h.valid (List.mem_append_left _ (List.mem_map_of_mem List.mem_cons_self)) hx
  rcases Net.delete_eq_some (n := n.onNetLeave x.ptr) hc (fun _ => hk ▸ hv.2) h.error_not_open
    with ⟨n', hn, hd⟩
  rw [hk] at hd
  refine ⟨n', hn, hd, h.gone hx hd (.refl _) (fun y hy => List.mem_cons_of_mem _ hy) ?_ ?_ ?_⟩
  · intro q
    rw [← h.closed]
    refine ⟨fun hq => ⟨hq, ?_⟩, And.left⟩
    rintro rfl
    exact hv.1 (Option.some.inj (hx.symm.trans hq))
  · intro g hg
    rcases hd.registered g hg with ⟨hg, hne⟩
    rcases List.mem_cons.mp (h.registered g hg) with he | hmem
    · exact absurd (congrArg Seat.sockfd he) (hne hv.1)
    · exact hmem
  · rw [List.length_cons]
    omega

/-- A detached client that is deleted in the end. -/
theorem releaseDetached {p : Ptr} (h : Roster cap n seated waiting (p :: detached)) :
    ∃ n', (n.onNetLeave p).delete p = some n' ∧ (n.onNetLeave p).Deleted p SOCKET_ERROR n' ∧
      Roster cap n' seated waiting detached := by
  have hp := (h.closed p).mpr List.mem_cons_self
  have hm := members_detached_cons seated p waiting detached
  rcases Net.sockfd?_eq_some.mp hp with ⟨c, hc, hk⟩
  rcases Net.delete_eq_some (n := n.onNetLeave p) hc (fun hne => absurd hk hne) h.error_not_open
    with ⟨n', hn, hd⟩
  rw [hk] at hd
  refine ⟨n', hn, hd, h.gone hp hd hm (fun _ hx => hx) (fun q => ?_) ?_ ?_⟩
  · have hnot : p ∉ detached := fun hpd =>
      (List.nodup_cons.mp (hm.nodup_iff.mp h.nodup)).1 (List.mem_append_right _ hpd)
    constructor
    · exact fun hq => ⟨List.mem_cons_of_mem _ hq, fun he => hnot (he ▸ hq)⟩
    · exact fun hq => List.mem_of_ne_of_mem hq.2 hq.1
  · exact fun g hg => h.registered g (hd.registered g hg).1
  · rw [List.length_cons]
    omega

/-- A seated client whose socket is closed while the object is kept. -/
theorem detach {x : Seat} (h : Roster cap n (x :: seated) waiting detached) :
    ∃ n', n.destroy x.ptr = some n' ∧
      (∀ q, n'.heap.get? q =
        if q = x.ptr then (n.heap.get? q).map CellClient.destroy else n.heap.get? q) ∧
      Roster cap n' seated waiting (x.ptr :: detached) := by
  have hx := h.keys x List.mem_cons_self
  rcases h.get?_of_seated List.mem_cons_self with ⟨c, hc, hk⟩
  have hv := h.valid (List.mem_append_left _ (List.mem_map_of_mem List.mem_cons_self)) hx
  have hd : n.destroy x.ptr = some ((n.close x.sockfd).setClient x.ptr c.destroy) := by
    rw [Net.destroy, hc, Option.bind_eq_bind, Option.bind_some, hk, if_pos (Ne.symm hv.1),
      Net.destroySocket, if_pos hv.2, Option.map_some]
  have hdc : c.destroy.sockfd = SOCKET_ERROR := by
    rw [CellClient.destroy, if_pos (hk ▸ Ne.symm hv.1)]
  refine ⟨_, hd, fun q => ?_, ?_⟩
  · dsimp only [Net.setClient, Net.close]
    rw [Heap.get?_set hc]
    split
    · next he => rw [he, hc, Option.map_some]
    · rfl
  generalize hn' : (n.close x.sockfd).setClient x.ptr c.destroy = n'
  have hs : ∀ q, n'.sockfd? q = if q = x.ptr then some SOCKET_ERROR else n.sockfd? q := by
    intro q
    rw [← hn', Net.sockfd?_setClient (n := n.close x.sockfd) hc, hdc]
    rfl
  have hcl : n.Closed x.ptr x.sockfd n' := by
    refine ⟨by rw [← hn']; rfl, fun q hq => by rw [hs, if_neg hq], fun fd hp => ?_⟩
    rw [hs, if_pos rfl] at hp
    exact (Option.some.inj hp).symm
  have hm := members_detached_cons seated x.ptr waiting detached
  have hnot : x.ptr ∉ members seated waiting detached := (List.nodup_cons.mp h.nodup).1
  constructor
  case ledger =>
    have hl : n'.left = n.left := by rw [← hn']; rfl
    have hr : n'.heap.next = n.heap.next := by rw [← hn']; exact Heap.next_set ..
    rw [hl, hr]
    exact (hm.append_right _).trans h.ledger
  case live =>
    intro q
    rw [hm.mem_iff, hs]
    split
    · next he => exact ⟨fun _ => ⟨_, rfl⟩, fun _ => he ▸ List.mem_cons_self⟩
    · exact h.live q
  case keys =>
    intro y hy
    rw [hcl.others]
    · exact h.keys y (List.mem_cons_of_mem _ hy)
    · rintro he
      exact hnot (List.mem_append_left _ (List.mem_append_left _ (he ▸ List.mem_map_of_mem hy)))
  case socks => exact fun q r fd => h.socks_of_closed hcl
  case closed =>
    intro q
    rw [hs, List.mem_cons]
    split
    · next he => exact ⟨fun _ => .inl he, fun _ => rfl⟩
    · next hq => exact (h.closed q).trans ⟨.inr, fun hq' => hq'.resolve_left hq⟩
  case opens => exact h.opens_of_closed hx hcl
  case openNodup => exact hcl.openSocks ▸ h.openNodup.erase x.sockfd
  case registered =>
    intro g hg
    rw [← hn'] at hg
    rcases List.mem_filter.mp hg with ⟨hg, hne⟩
    rcases List.mem_cons.mp (h.registered g hg) with he | hmem
    · exact absurd (congrArg Seat.sockfd he) (of_decide_eq_true hne)
    · exact hmem
  case accepted =>
    have ha := h.accepted
    have hc : n'.clientAccept = n.clientAccept := by rw [← hn']; rfl
    rw [List.length_cons] at ha ⊢
    omega
  case joined =>
    have hj := h.joined
    have hc : n'.clientJoin = n.clientJoin := by rw [← hn']; rfl
    rw [List.length_cons] at hj ⊢
    omega
  case bound =>
    rw [← hn']
    exact h.bound

end Roster

end CellNet
