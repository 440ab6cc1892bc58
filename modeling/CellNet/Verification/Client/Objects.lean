import CellNet.Model.EasyClient

/-! What a client object points to is there: what the functions that make and delete clients and
event arrays preserve. -/

namespace CellNet

open Library

namespace EasyClient

variable {kind : EasyKind} {e e' : EasyClient} {p : ℕ} {c : CellClient}

/-- The client, the array and the registered client are there. -/
structure Ok (kind : EasyKind) (e : EasyClient) : Prop where
  client : ∀ p, e.pClient = some p → ∃ c, e.clients.get? p = some c
  array : ∀ a, e.pEvents = some a → ∃ ev, e.arrays.get? a = some ev ∧
    ∀ p, ev.ptr = some p → e.pClient = some p
  registered : ∀ p, e.registered = some p → e.pClient = some p
  select : kind = .select → e.pEvents = none

theorem new_ok (kind : EasyKind) : new.Ok kind := by
  constructor
  case client => exact fun _ hp => nomatch hp
  case array => exact fun _ ha => nomatch ha
  case registered => exact fun _ hp => nomatch hp
  case select => exact fun _ => rfl

theorem client_eq (hp : e.pClient = some p) (hc : e.clients.get? p = some c) :
    e.client = some c := by
  unfold EasyClient.client
  rw [hp, Option.bind_some, hc]

theorem target_eq (hp : e.pClient = some p) (hc : e.clients.get? p = some c) :
    e.target = some (p, c) := by
  unfold target
  simp [hp, hc]

theorem isRun_ne_none (h : e.isRun = true) : e.pClient ≠ none := by
  unfold isRun at h
  rw [Bool.and_eq_true] at h
  exact Option.isSome_iff_ne_none.mp h.1

namespace Ok

theorem get? (h : e.Ok kind) (hp : e.pClient ≠ none) :
    ∃ p c, e.pClient = some p ∧ e.clients.get? p = some c := by
  obtain ⟨p, hp⟩ := Option.ne_none_iff_exists'.mp hp
  obtain ⟨c, hc⟩ := h.client p hp
  exact ⟨p, c, hp, hc⟩

theorem setClient (h : e.Ok kind) (hc : e.clients.get? p = some c) (c' : CellClient) :
    (e.setClient p c').Ok kind := by
  constructor
  case client =>
    intro q hq
    unfold EasyClient.setClient
    dsimp only
    rw [Heap.get?_set hc]
    split
    · exact ⟨c', rfl⟩
    · exact h.client q hq
  case array => exact h.array
  case registered => exact h.registered
  case select => exact h.select

/-! ### Deleting -/

/-- Without its array. -/
theorem without (h : e.Ok kind) (hc : e'.clients = e.clients) (hp : e'.pClient = e.pClient)
    (hr : ∀ p, e'.registered = some p → e.registered = some p) (hn : e'.pEvents = none) :
    e'.Ok kind := by
  constructor
  case client =>
    intro p hq
    rw [hc]
    exact h.client p (hp ▸ hq)
  case array =>
    intro a ha
    rw [hn] at ha
    cases ha
  case registered =>
    intro p hq
    rw [hp]
    exact h.registered p (hr p hq)
  case select => exact fun _ => hn

theorem deleteEvents (h : e.Ok kind) : ∃ e', e.deleteEvents = some e' ∧ e'.Ok kind ∧
    e'.pEvents = none ∧ e'.pClient = e.pClient := by
  unfold EasyClient.deleteEvents
  split
  · next hn => exact ⟨e, rfl, h, hn, rfl⟩
  · next a ha =>
      obtain ⟨ev, hev, -⟩ := h.array a ha
      rw [hev]
      exact ⟨_, rfl, h.without rfl rfl (fun _ hr => hr) rfl, rfl, rfl⟩

theorem destroy (h : e.Ok kind) : ∃ e', e.destroy = some e' ∧ e'.Ok kind ∧
    e'.pEvents = none ∧ e'.pClient = e.pClient := by
  obtain ⟨e', he, hok, hn, hp⟩ := h.deleteEvents
  unfold EasyClient.destroy
  rw [he, Option.map_some]
  refine ⟨_, rfl, ?_⟩
  split
  · exact ⟨hok.without rfl rfl (fun _ hr => nomatch hr) hn, hn, hp⟩
  · exact ⟨hok, hn, hp⟩

theorem closeClient (h : e.Ok kind) (hn : e.pEvents = none) :
    ∃ e', e.closeClient = some e' ∧ e'.Ok kind ∧ e'.pClient = none := by
  unfold EasyClient.closeClient
  split
  · next hp =>
      exact ⟨_, rfl, h.without rfl rfl (fun _ hr => hr) hn, hp⟩
  · next p hp =>
      obtain ⟨c, hc⟩ := h.client p hp
      rw [hc]
      refine ⟨_, rfl, ?_, rfl⟩
      constructor
      case client => exact fun _ hq => nomatch hq
      case array =>
        intro a ha
        dsimp only at ha
        rw [hn] at ha
        cases ha
      case registered => exact fun _ hq => nomatch hq
      case select => exact fun _ => hn

theorem close (h : e.Ok kind) :
    ∃ e', e.close kind = some e' ∧ e'.Ok kind ∧ e'.pClient = none := by
  cases kind with
  | epoll =>
      obtain ⟨e₁, he, hok, hn, -⟩ := h.destroy
      obtain ⟨e₂, he₂, hok₂, hp⟩ := hok.closeClient hn
      refine ⟨e₂, ?_, hok₂, hp⟩
      unfold EasyClient.close
      dsimp only
      rw [he, Option.bind_some, he₂]
  | select => exact h.closeClient (h.select rfl)

/-! ### Making -/

theorem create (h : e.Ok .epoll) (epfd : ℤ) :
    ∃ e', e.create epfd = some e' ∧ e'.Ok .epoll ∧ e'.pClient = e.pClient := by
  have hfirst : ∃ e₁, (if e.epfd > 0 then e.destroy else some e) = some e₁ ∧ e₁.Ok .epoll ∧
      e₁.pClient = e.pClient := by
    split
    · obtain ⟨e₁, he, hok, -, hp⟩ := h.destroy
      exact ⟨e₁, he, hok, hp⟩
    · exact ⟨e, rfl, h, rfl⟩
  obtain ⟨e₁, he, hok, hp⟩ := hfirst
  unfold EasyClient.create
  rw [he, Option.map_some]
  refine ⟨_, rfl, ?_⟩
  split
  · exact ⟨⟨hok.client, hok.array, hok.registered, hok.select⟩, hp⟩
  · refine ⟨?_, hp⟩
    constructor
    case client => exact hok.client
    case array =>
      intro a ha
      obtain rfl := Option.some.inj ha
      dsimp only
      rw [Heap.get?_alloc, if_pos rfl]
      exact ⟨_, rfl, fun _ hq => nomatch hq⟩
    case registered => exact hok.registered
    case select => exact fun hk => nomatch hk

theorem ctl (h : e.Ok kind) (hp : e.pClient ≠ none) (ok : Bool) :
    ∃ e', e.ctl ok = some e' ∧ e'.Ok kind ∧ e'.pClient = e.pClient := by
  obtain ⟨p, c, hpc, hc⟩ := h.get? hp
  unfold EasyClient.ctl
  rw [client_eq hpc hc, Option.map_some]
  refine ⟨_, rfl, ?_⟩
  split
  · exact ⟨⟨h.client, h.array, fun _ hq => hq, h.select⟩, rfl⟩
  · exact ⟨h, rfl⟩

/-- An event is in an array that is there, and carries the client. -/
theorem wait (h : e.Ok kind) (poll : PollAnswer) :
    ∃ e' ret, e.wait poll = some (e', ret) ∧ e'.Ok kind ∧ e'.pClient = e.pClient ∧
      (0 < ret → ret = 1 ∧ e'.pEvents ≠ none) := by
  cases poll with
  | error => exact ⟨e, _, rfl, h, rfl, fun hr => absurd hr (by decide)⟩
  | timeout => exact ⟨e, _, rfl, h, rfl, fun hr => absurd hr (by decide)⟩
  | ready read write =>
      unfold EasyClient.wait
      dsimp only
      split
      · exact ⟨e, _, rfl, h, rfl, fun hr => absurd hr (by decide)⟩
      · next a ha =>
          obtain ⟨ev, hev, -⟩ := h.array a ha
          rw [hev, Option.isSome_some, if_pos rfl]
          split
          · exact ⟨e, _, rfl, h, rfl, fun hr => absurd hr (by decide)⟩
          · refine ⟨_, _, rfl, ?_, rfl, fun _ => ⟨rfl, ?_⟩⟩
            · constructor
              case client => exact h.client
              case array =>
                intro b hb
                obtain rfl := Option.some.inj (ha.symm.trans hb)
                dsimp only
                rw [Heap.get?_set hev, if_pos rfl]
                exact ⟨_, rfl, h.registered⟩
              case registered => exact h.registered
              case select => exact h.select
            · dsimp only
              rw [ha]
              nofun

/-! ### The functions of `EasyTcpClient` -/

theorem onInitSocket (h : e.Ok kind) (hp : e.pClient ≠ none) (x : SocketAnswer) :
    ∃ e', e.onInitSocket kind x = some e' ∧ e'.Ok kind ∧ e'.pClient = e.pClient := by
  cases kind with
  | epoll =>
      obtain ⟨e₁, he, hok, hp₁⟩ := h.create x.epfd
      obtain ⟨e₂, he₂, hok₂, hp₂⟩ := hok.ctl (hp₁ ▸ hp) x.added
      refine ⟨e₂, ?_, hok₂, hp₂.trans hp₁⟩
      unfold EasyClient.onInitSocket
      dsimp only
      rw [he, Option.bind_some, he₂]
  | select => exact ⟨e, rfl, h, rfl⟩

theorem initSocket (h : e.Ok kind) (x : SocketAnswer) :
    ∃ e', e.initSocket kind x = some e' ∧ e'.Ok kind ∧
      (x.sock ≠ INVALID_SOCKET → e'.pClient ≠ none) := by
  have hfirst : ∃ e₁, (if e.pClient = none then some e
      else e.client.bind fun _ => e.close kind) = some e₁ ∧ e₁.Ok kind ∧ e₁.pClient = none := by
    split
    · next hp => exact ⟨e, rfl, h, hp⟩
    · next hp =>
        obtain ⟨p, c, hpc, hc⟩ := h.get? hp
        rw [client_eq hpc hc]
        exact h.close
  obtain ⟨e₁, he, hok, hp⟩ := hfirst
  unfold EasyClient.initSocket
  rw [he, Option.bind_some]
  split
  · next hx => exact ⟨e₁, rfl, hok, fun hne => absurd hx hne⟩
  · have hnew : Ok kind { e₁ with
        clients := e₁.clients.alloc (.new x.id x.sock x.sendBuff x.recvBuff)
        pClient := some e₁.clients.next } := by
      constructor
      case client =>
        intro p hq
        obtain rfl := Option.some.inj hq
        exact ⟨_, (Heap.get?_alloc ..).trans (if_pos rfl)⟩
      case array =>
        intro a ha
        obtain ⟨ev, hev, hptr⟩ := hok.array a ha
        refine ⟨ev, hev, fun p hq => ?_⟩
        have hnone := hptr p hq
        rw [hp] at hnone
        cases hnone
      case registered =>
        intro p hq
        have hnone := hok.registered p hq
        rw [hp] at hnone
        cases hnone
      case select => exact hok.select
    obtain ⟨e₂, he₂, hok₂, hp₂⟩ := hnew.onInitSocket (by simp) x
    refine ⟨e₂, he₂, hok₂, fun _ => ?_⟩
    rw [hp₂]
    nofun

theorem connectClient (h : e.Ok kind) (hp : e.pClient ≠ none) (ret : ℤ) :
    ∃ e', e.connectClient ret = some e' ∧ e'.Ok kind := by
  obtain ⟨p, c, hpc, hc⟩ := h.get? hp
  unfold EasyClient.connectClient
  rw [client_eq hpc hc, Option.map_some]
  refine ⟨_, rfl, ?_⟩
  split
  · exact h
  · exact ⟨h.client, h.array, h.registered, h.select⟩

theorem connect (h : e.Ok kind) (x : SocketAnswer) (ret : ℤ) :
    ∃ e', e.connect kind x ret = some e' ∧ e'.Ok kind := by
  unfold EasyClient.connect
  split
  · obtain ⟨e₁, he, hok, hp⟩ := h.initSocket x
    rw [he, Option.bind_eq_bind, Option.bind_some]
    split
    · exact ⟨e₁, rfl, hok⟩
    · next hx => exact hok.connectClient (hp hx) ret
  · next hp => exact h.connectClient hp ret

theorem sendData (h : e.Ok kind) {pData : List UInt8} {len : ℤ}
    (hs : ∀ c, e.client = some c → (c.sendData pData len).isSome) :
    ∃ e', e.sendData pData len = some e' ∧ e'.Ok kind := by
  unfold EasyClient.sendData
  split
  · next hr =>
      obtain ⟨p, c, hp, hc⟩ := h.get? (isRun_ne_none hr)
      obtain ⟨r, hr'⟩ := Option.isSome_iff_exists.mp (hs c (client_eq hp hc))
      rw [target_eq hp hc, Option.bind_eq_bind, Option.bind_some, hr', Option.bind_eq_bind,
        Option.bind_some]
      exact ⟨_, rfl, h.setClient hc r.1⟩
  · exact ⟨e, rfl, h⟩

theorem sendDataReal (h : e.Ok kind) (hc : e.clients.get? p = some c) (send : ℤ) :
    ∃ e' n, e.sendDataReal p send = some (e', n) ∧ e'.Ok kind ∧ e'.pClient = e.pClient ∧
      e'.pEvents = e.pEvents := by
  unfold EasyClient.sendDataReal
  rw [hc, Option.bind_eq_bind, Option.bind_some]
  exact ⟨_, _, rfl, h.setClient hc _, rfl, rfl⟩

end Ok

end EasyClient

end CellNet
