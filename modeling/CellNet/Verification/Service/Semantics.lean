import CellNet.Model.Io
import CellNet.Verification.Loop.Views
import Mathlib.Algebra.BigOperators.Group.Finset.Basic
import Mathlib.Algebra.Order.BigOperators.Group.Finset

/-! The service that a worker does its clients: each is served by the calls made for it, and by
nothing else, in whatever order a loop goes over them. -/

namespace CellNet

open Library Worker

variable {π : Type}

/-! ### The calls for one client, one after the other -/

namespace CellClient

@[simp] theorem recvOrLeave_none (c : CellClient) : c.recvOrLeave none = some c := rfl

@[simp] theorem sendOrLeave_none (c : CellClient) : c.sendOrLeave none = some c := rfl

end CellClient

namespace Io

@[simp] theorem serve_idle (c : CellClient) : idle.serve c = some c := rfl

@[simp] theorem received_idle (c : CellClient) : idle.received c = false := rfl

@[simp] theorem bind_serve_idle (o : Option CellClient) : o.bind idle.serve = o := by
  cases o <;> rfl

theorem serve_recv (recv : Option (List UInt8)) (c : CellClient) :
    (⟨some recv, none⟩ : Io).serve c =
      if (c.recvData recv).2 ≤ 0 then none else some (c.recvData recv).1 := by
  simp [serve, CellClient.recvOrLeave]

theorem serve_send (ret : ℤ) (c : CellClient) :
    (⟨none, some ret⟩ : Io).serve c =
      if (c.sendDataReal ret).2 = SOCKET_ERROR then none else some (c.sendDataReal ret).1 := by
  simp [serve, CellClient.sendOrLeave]

theorem serve_keeps_send {recv : Option (Option (List UInt8))} {c d : CellClient}
    (h : (⟨recv, none⟩ : Io).serve c = some d) : d.sendBuff = c.sendBuff := by
  cases recv with
  | none =>
      obtain rfl := Option.some.inj h
      rfl
  | some recv =>
      rw [serve_recv] at h
      split at h
      · cases h
      · obtain rfl := Option.some.inj h
        rfl

/-- The calls of `c` are those of `a` and then those of `b`. -/
inductive Then : Io → Io → Io → Prop where
  | left (a) : Then a idle a
  | right (b) : Then idle b b
  | both (recv send) : Then ⟨recv, none⟩ ⟨none, send⟩ ⟨recv, send⟩

variable {a b c : Io}

theorem Then.serve (h : Then a b c) (x : CellClient) : c.serve x = (a.serve x).bind b.serve := by
  cases h with
  | left => cases a.serve x <;> simp
  | right => simp
  | both recv send => cases hx : x.recvOrLeave recv <;> simp [Io.serve, hx]

/-- One of the two calls `OnNetRecv`, if any. -/
theorem Then.received (h : Then a b c) (x : CellClient) :
    (c.received x).toNat = (a.received x).toNat + ((a.serve x).any b.received).toNat := by
  cases h with
  | left => cases a.serve x <;> simp
  | right => simp
  | both recv send => cases (⟨recv, none⟩ : Io).serve x <;> simp [Io.received]

end Io

/-! ### Sockets and registrations -/

namespace Net

variable {n n₁ n' : Net}

/-- The clients that are registered with epoll instances. -/
def enrolled (n : Net) : List Seat := n.registered.map fun g => ⟨g.epfd, g.sockfd, g.ptr⟩

/-- Sockets may have been closed; the registrations of the others are kept. -/
structure Closes (n n' : Net) : Prop where
  openSocks : n'.openSocks.Sublist n.openSocks
  enrolled : n'.enrolled.Sublist n.enrolled
  kept : n.openSocks.Nodup → ∀ x ∈ n.enrolled, x.sockfd ∈ n'.openSocks → x ∈ n'.enrolled

theorem closes_of_eq (ho : n'.openSocks = n.openSocks) (he : n'.enrolled = n.enrolled) :
    n.Closes n' := by
  constructor
  · rw [ho]
  · rw [he]
  · intro _ x hx _
    rwa [he]

theorem Closes.trans (h : n.Closes n₁) (h' : n₁.Closes n') : n.Closes n' where
  openSocks := h'.openSocks.trans h.openSocks
  enrolled := h'.enrolled.trans h.enrolled
  kept hn x hx ho :=
    h'.kept (h.openSocks.nodup hn) x (h.kept hn x hx (h'.openSocks.subset ho)) ho

theorem close_closes (n : Net) (fd : SOCKET) : n.Closes (n.close fd) where
  openSocks := List.erase_sublist
  enrolled := List.filter_sublist.map _
  kept := by
    intro hn x hx ho
    obtain ⟨g, hg, rfl⟩ := List.mem_map.mp hx
    have hne : g.sockfd ≠ fd := (hn.mem_erase_iff.mp ho).1
    exact List.mem_map.mpr ⟨g, List.mem_filter.mpr ⟨hg, decide_eq_true hne⟩, rfl⟩

end Net

/-! ### The clients of a worker -/

namespace Worker

variable {io io₁ io₂ : Ptr → Io} {w w₁ w' : Worker π}

/-- How many clients `OnNetRecv` is called for. -/
def receipts (io : Ptr → Io) (n : Net) : ℕ :=
  ∑ p ∈ Finset.range n.heap.next, ((n.heap.get? p).any (io p).received).toNat

/-- Each client was served by its own calls. -/
structure Served (io : Ptr → Io) (w w' : Worker π) : Prop where
  client : ∀ p, w'.1.heap.get? p = (w.1.heap.get? p).bind (io p).serve
  next : w'.1.heap.next = w.1.heap.next
  recvCount : w'.1.recvCount = w.1.recvCount + receipts io w.1
  msgCount : w'.1.msgCount = w.1.msgCount
  closes : w.1.Closes w'.1

theorem served_idle {n : Net} (hh : n.heap = w.1.heap) (hr : n.recvCount = w.1.recvCount)
    (hm : n.msgCount = w.1.msgCount) (ho : w.1.Closes n) (s : CellServer π)
    (hio : ∀ p, w.1.heap.get? p = none ∨ io p = .idle) : Served io w (n, s) where
  client p := by
    rcases hio p with hp | hp
    · simp [hh, hp]
    · cases hc : w.1.heap.get? p <;> simp [hh, hp, hc]
  next := by rw [hh]
  recvCount := by
    have hz : receipts io w.1 = 0 := by
      apply Finset.sum_eq_zero
      intro p _
      rcases hio p with hp | hp
      · simp [hp]
      · cases hc : w.1.heap.get? p <;> simp [hp]
    rw [hz, hr, Nat.cast_zero, add_zero]
  msgCount := hm
  closes := ho

/-- Nothing has changed, and no client that lives has been called for. -/
theorem served_same (w : Worker π) (hio : ∀ p, w.1.heap.get? p = none ∨ io p = .idle) :
    Served io w w :=
  served_idle rfl rfl rfl (Net.closes_of_eq rfl rfl) w.2 hio

theorem Served.trans (h : Served io₁ w w₁) (h' : Served io₂ w₁ w')
    (ht : ∀ p, Io.Then (io₁ p) (io₂ p) (io p)) : Served io w w' where
  client p := by
    rw [h'.client, h.client]
    cases w.1.heap.get? p with
    | none => rfl
    | some c => simp [(ht p).serve]
  next := h'.next.trans h.next
  recvCount := by
    have hsum : receipts io w.1 = receipts io₁ w.1 + receipts io₂ w₁.1 := by
      rw [receipts, receipts, receipts, h.next, ← Finset.sum_add_distrib]
      apply Finset.sum_congr rfl
      intro p _
      rw [h.client]
      cases w.1.heap.get? p with
      | none => rfl
      | some c => simpa using (ht p).received c
    rw [h'.recvCount, h.recvCount, hsum, Nat.cast_add, add_assoc]
  msgCount := h'.msgCount.trans h.msgCount
  closes := h.closes.trans h'.closes

/-- The calls `io` for the client `p` and none for the others. -/
def only (p : Ptr) (io : Io) : Ptr → Io := fun q => if q = p then io else .idle

/-- The client `p` is no more; the others are as before. -/
structure Deletes (p : Ptr) (w w' : Worker π) : Prop where
  client : ∀ q, w'.1.heap.get? q = if q = p then none else w.1.heap.get? q
  next : w'.1.heap.next = w.1.heap.next
  recvCount : w'.1.recvCount = w.1.recvCount
  msgCount : w'.1.msgCount = w.1.msgCount
  closes : w.1.Closes w'.1

theorem receipts_only {p : Ptr} {c : CellClient} (hc : w.1.heap.get? p = some c) (io : Io) :
    receipts (only p io) w.1 = (io.received c).toNat := by
  rw [receipts, Finset.sum_eq_single p]
  · simp [only, hc]
  · intro q _ hq
    cases w.1.heap.get? q <;> simp [only, hq]
  · intro hp
    exact absurd (Finset.mem_range.mpr (Heap.lt_next hc)) hp

/-- Only the client `p` has changed. -/
theorem served_only {p : Ptr} {c : CellClient} (hc : w.1.heap.get? p = some c) {io : Io}
    (hp : w'.1.heap.get? p = io.serve c)
    (hq : ∀ q, q ≠ p → w'.1.heap.get? q = w.1.heap.get? q)
    (hn : w'.1.heap.next = w.1.heap.next)
    (hr : w'.1.recvCount = w.1.recvCount + (io.received c).toNat)
    (hm : w'.1.msgCount = w.1.msgCount) (ho : w.1.Closes w'.1) :
    Served (only p io) w w' where
  client q := by
    by_cases he : q = p
    · simp [he, only, hc, hp]
    · simp [he, only, hq]
  next := hn
  recvCount := by rw [receipts_only hc, hr]
  msgCount := hm
  closes := ho

/-! ### A call and what follows it -/

theorem delete_counts {n n' : Net} {p : Ptr} (h : n.delete p = some n') :
    n'.recvCount = n.recvCount ∧ n'.msgCount = n.msgCount ∧ n.Closes n' := by
  obtain ⟨m, hm, rfl⟩ := Option.map_eq_some_iff.mp h
  obtain ⟨c, -, hm⟩ := Option.bind_eq_some_iff.mp hm
  split at hm
  · obtain ⟨l, hl, rfl⟩ := Option.map_eq_some_iff.mp hm
    rw [Net.destroySocket] at hl
    split at hl
    · obtain rfl := Option.some.inj hl
      exact ⟨rfl, rfl, (n.close_closes c.sockfd).trans (Net.closes_of_eq rfl rfl)⟩
    · cases hl
  · obtain rfl := Option.some.inj hm
    exact ⟨rfl, rfl, Net.closes_of_eq rfl rfl⟩

theorem onClientLeave_deletes {p : Ptr} (h : w.onClientLeave p = some w') : Deletes p w w' := by
  obtain ⟨n, hn, rfl⟩ := Option.map_eq_some_iff.mp h
  obtain ⟨hr, hm, ho⟩ := delete_counts hn
  have hleave : w.1.Closes (w.1.onNetLeave p) := Net.closes_of_eq rfl rfl
  refine ⟨?_, (Net.delete_retains (f := CellClient.id) hn).next, hr, hm, hleave.trans ho⟩
  intro q
  split
  · next he =>
      obtain ⟨m, -, rfl⟩ := Option.map_eq_some_iff.mp hn
      simp [Heap.get?_free, he]
  · next hq => exact get?_delete (n := w.1.onNetLeave p) hn hq

/-- The data of the client have changed, and then it is removed. -/
theorem Deletes.served {p : Ptr} {c d : CellClient} (hc : w.1.heap.get? p = some c) {io : Io}
    (hio : io.serve c = none) (hr : io.received c = false)
    (h : Deletes p (w.1.setClient p d, w.2) w') : Served (only p io) w w' := by
  apply served_only hc
  · rw [hio, h.client, if_pos rfl]
  · intro q hq
    rw [h.client, if_neg hq]
    exact (Heap.get?_set hc d q).trans (if_neg hq)
  · exact h.next.trans (Heap.next_set ..)
  · rw [h.recvCount, hr, Bool.toNat_false, Nat.cast_zero, add_zero]
    rfl
  · exact h.msgCount
  · have hset : w.1.Closes (w.1.setClient p d) := Net.closes_of_eq rfl rfl
    exact hset.trans h.closes

/-- `if (SOCKET_ERROR == RecvData(pClient))`, and the client is removed. -/
theorem orRemove_recv {rm : Worker π → Option (Worker π)} {p : Ptr}
    {recv : Option (List UInt8)} {r : Worker π × Bool}
    (hrm : ∀ {w w'}, rm w = some w' → Deletes p w w')
    (h : w.orRemove (fun w => w.recvData p recv) rm = some r) :
    Served (only p ⟨some recv, none⟩) w r.1 ∧ (r.2 = true → r.1.1.heap.get? p = none) := by
  obtain ⟨x, hx, h⟩ := Option.bind_eq_some_iff.mp h
  obtain ⟨c, hc, hx⟩ := Option.bind_eq_some_iff.mp hx
  dsimp only at hx
  split at hx
  · next hle =>
      -- nothing was received
      obtain rfl := Option.some.inj hx
      rw [if_pos rfl] at h
      obtain ⟨w₁, hw, rfl⟩ := Option.map_eq_some_iff.mp h
      have hd := hrm hw
      constructor
      · apply hd.served hc
        · rw [Io.serve_recv, if_pos hle]
        · simpa [Io.received] using hle
      · intro _
        simp [hd.client p]
  · next hlt =>
      obtain rfl := Option.some.inj hx
      have hne : (c.recvData recv).2 ≠ SOCKET_ERROR := by
        rw [SOCKET_ERROR]
        omega
      rw [if_neg hne] at h
      obtain rfl := Option.some.inj h
      have hset := Heap.get?_set hc (c.recvData recv).1
      refine ⟨?_, nofun⟩
      apply served_only hc
      · rw [Io.serve_recv, if_neg hlt]
        exact (hset p).trans (if_pos rfl)
      · intro q hq
        exact (hset q).trans (if_neg hq)
      · exact Heap.next_set ..
      · simp [Io.received, not_le.mp hlt, Net.onNetRecv, Net.setClient]
      · rfl
      · exact Net.closes_of_eq rfl rfl

/-- `if (SOCKET_ERROR == pClient->SendDataReal())`, and the client is removed. -/
theorem orRemove_send {rm : Worker π → Option (Worker π)} {p : Ptr} {ret : ℤ}
    {r : Worker π × Bool} (hrm : ∀ {w w'}, rm w = some w' → Deletes p w w')
    (h : w.orRemove (fun w => w.sendDataReal p ret) rm = some r) :
    Served (only p ⟨none, some ret⟩) w r.1 := by
  obtain ⟨x, hx, h⟩ := Option.bind_eq_some_iff.mp h
  change w.sendDataReal p ret = some x at hx
  rw [Worker.sendDataReal] at hx
  obtain ⟨c, hc, hx⟩ := Option.bind_eq_some_iff.mp hx
  obtain rfl := Option.some.inj hx
  dsimp only at h
  split at h
  · next herr =>
      obtain ⟨w₁, hw, rfl⟩ := Option.map_eq_some_iff.mp h
      apply (hrm hw).served hc
      · rw [Io.serve_send, if_pos herr]
      · rfl
  · next hok =>
      obtain rfl := Option.some.inj h
      have hset := Heap.get?_set hc (c.sendDataReal ret).1
      apply served_only hc
      · rw [Io.serve_send, if_neg hok]
        exact (hset p).trans (if_pos rfl)
      · intro q hq
        exact (hset q).trans (if_neg hq)
      · exact Heap.next_set ..
      · simp [Io.received, Net.setClient]
      · rfl
      · exact Net.closes_of_eq rfl rfl

/-! ### Loops -/

/-- The calls `io` for the clients `ps` and none for the others. -/
def within (ps : List Ptr) (io : Ptr → Io) : Ptr → Io := fun p => if p ∈ ps then io p else .idle

theorem Served.congr {io' : Ptr → Io} (h : Served io w w')
    (hio : ∀ p, w.1.heap.get? p = none ∨ io p = io' p) : Served io' w w' where
  client p := by
    rw [h.client]
    rcases hio p with hp | hp
    · simp [hp]
    · rw [hp]
  next := h.next
  recvCount := by
    have he : receipts io w.1 = receipts io' w.1 := by
      apply Finset.sum_congr rfl
      intro p _
      rcases hio p with hp | hp
      · simp [hp]
      · rw [hp]
    rw [h.recvCount, he]
  msgCount := h.msgCount
  closes := h.closes

/-- A loop each round of which serves the client that `target` tells, if any, and no client
twice. A round finds its client as it was when the loop began. -/
theorem served_loop {β : Type} {body : Worker π → β → Option (Worker π)}
    {target : β → Option Ptr} {I : Worker π → Prop} {u : Worker π} {l : List β}
    (hs : ∀ b ∈ l, ∀ {w w'}, I w →
      (∀ p, target b = some p → w.1.heap.get? p = u.1.heap.get? p) →
      body w b = some w' → I w' ∧ Served (within (target b).toList io) w w')
    (hd : l.Pairwise fun b b' => ∀ p, target b = some p → target b' ≠ some p)
    (hw : I w) (hview : ∀ b ∈ l, ∀ p, target b = some p → w.1.heap.get? p = u.1.heap.get? p)
    (h : l.foldlM body w = some w') : Served (within (l.filterMap target) io) w w' := by
  induction l generalizing w with
  | nil =>
      obtain rfl := Option.some.inj h
      exact served_same w fun _ => .inr rfl
  | cons b l ih =>
      rw [List.foldlM_cons] at h
      obtain ⟨w₁, hb, h⟩ := Option.bind_eq_some_iff.mp h
      obtain ⟨hI, hfirst⟩ := hs b List.mem_cons_self hw (hview b List.mem_cons_self) hb
      have hother : ∀ b' ∈ l, ∀ p, target b' = some p → target b ≠ some p := by
        intro b' hb' p hp hp'
        exact List.rel_of_pairwise_cons hd hb' p hp' hp
      have hrest := ih (fun b' hb' => hs b' (List.mem_cons_of_mem _ hb')) hd.of_cons hI
        (by
          intro b' hb' p hp
          rw [hfirst.client, within, if_neg, Io.bind_serve_idle]
          · exact hview b' (List.mem_cons_of_mem _ hb') p hp
          · simpa using hother b' hb' p hp) h
      apply hfirst.trans hrest
      intro p
      cases ht : target b with
      | none => simpa [within, ht] using Io.Then.right _
      | some q =>
          by_cases hp : p = q
          · subst hp
            have hn : p ∉ l.filterMap target := by
              rw [List.mem_filterMap]
              intro hm
              obtain ⟨b', hb', hp'⟩ := hm
              exact hother b' hb' p hp' ht
            simpa [within, ht, hn] using Io.Then.left _
          · simpa [within, ht, hp] using Io.Then.right _

theorem within_singleton (p : Ptr) : within [p] io = only p (io p) := by
  funext q
  by_cases hq : q = p <;> simp [within, only, hq]

theorem within_eq {ps : List Ptr} (h : ∀ p, p ∉ ps → io p = .idle) : within ps io = io := by
  funext p
  by_cases hp : p ∈ ps <;> simp [within, hp, h]

end Worker

end CellNet
