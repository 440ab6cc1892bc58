import CellNet.Library.Loop
import CellNet.Verification.Tables.Semantics

/-! What the functions of a worker do to the roster: they do not fault, and each client
they take out of the table has left. The rest of the roster belongs to other workers. -/

namespace CellNet

open Library

variable {π : Type}

def CellServer.seat (s : CellServer π) (e : SOCKET × Ptr) : Seat := ⟨s.id, e.1, e.2⟩

def CellServer.seats (s : CellServer π) : List Seat := s.clients.entries.map s.seat

namespace Worker

/-- The roster of the whole server, seen from one worker. -/
def Tables (cap : ℤ) (seated : List Seat) (waiting : List Ptr) (w : Worker π) : Prop :=
  Roster cap w.1 (w.2.seats ++ seated) (w.2.clientsBuff ++ waiting) []

/-- What a worker may do while it looks at the client `p` of its table. -/
structure Visited (cap : ℤ) (seated : List Seat) (waiting : List Ptr) (p : Ptr)
    (w w' : Worker π) : Prop where
  tables : Tables cap seated waiting w'
  id : w'.2.id = w.2.id
  kept : ∀ e ∈ w.2.clients.entries, e.2 ≠ p → e ∈ w'.2.clients.entries

variable {cap : ℤ} {seated : List Seat} {waiting : List Ptr}

theorem mem_seats {s : CellServer π} {e : SOCKET × Ptr} (h : e ∈ s.clients.entries) :
    s.seat e ∈ s.seats :=
  List.mem_map.mpr ⟨e, h, rfl⟩

theorem Visited.refl {w : Worker π} (h : Tables cap seated waiting w) (p : Ptr) :
    Visited cap seated waiting p w w :=
  ⟨h, rfl, fun _ he _ => he⟩

theorem Visited.trans {p : Ptr} {w₁ w₂ w₃ : Worker π} (h : Visited cap seated waiting p w₁ w₂)
    (h' : Visited cap seated waiting p w₂ w₃) : Visited cap seated waiting p w₁ w₃ :=
  ⟨h'.tables, h'.id.trans h.id, fun e he hp => h'.kept e (h.kept e he hp) hp⟩

theorem Tables.get? {w : Worker π} (h : Tables cap seated waiting w) {e : SOCKET × Ptr}
    (he : e ∈ w.2.clients.entries) : ∃ c, w.1.heap.get? e.2 = some c ∧ c.sockfd = e.1 :=
  h.get?_of_seated (List.mem_append_left _ (mem_seats he))

/-- Data of a client changes. -/
theorem Tables.setClient {w : Worker π} (h : Tables cap seated waiting w) {p : Ptr}
    {c d : CellClient} (hc : w.1.heap.get? p = some c) (hs : d.sockfd = c.sockfd) :
    Tables cap seated waiting (w.1.setClient p d, w.2) :=
  Roster.setClient h hc hs

theorem Tables.ptr_nodup {w : Worker π} (h : Tables cap seated waiting w) :
    (w.2.clients.entries.map Prod.snd).Nodup := by
  have hn := h.nodup.of_append_left.of_append_left
  rw [List.map_append, CellServer.seats, List.map_map] at hn
  exact hn.of_append_left

/-- A client of the table that lives after a function of the worker is still in the table. -/
theorem Tables.seat_of_live {w w' : Worker π} (h : Tables cap seated waiting w)
    (h' : Tables cap seated waiting w') (hb : w'.2.clientsBuff = w.2.clientsBuff)
    {e : SOCKET × Ptr} (he : e ∈ w.2.clients.entries) {fd : SOCKET}
    (hp : w'.1.sockfd? e.2 = some fd) : ∃ k, (k, e.2) ∈ w'.2.clients.entries := by
  have hmem := (h'.live e.2).mpr ⟨fd, hp⟩
  have hnd := h.nodup
  simp only [members, List.map_append, List.append_nil, List.mem_append, hb] at hmem hnd
  rw [List.append_assoc] at hnd
  have hin : e.2 ∈ w.2.seats.map Seat.ptr := List.mem_map_of_mem (mem_seats he)
  have hout := List.disjoint_of_nodup_append hnd hin
  rcases hmem with (hmem | hmem) | hmem
  · obtain ⟨x, hx, hxp⟩ := List.mem_map.mp hmem
    obtain ⟨f, hf, rfl⟩ := List.mem_map.mp hx
    exact ⟨f.1, hxp ▸ hf⟩
  · exact absurd (List.mem_append_left _ hmem) hout
  · exact absurd (List.mem_append_right _ (List.mem_append.mpr hmem)) hout

/-! ### Removal -/

theorem onClientLeave_spec {w w' : Worker π} {p : Ptr} (h : w.onClientLeave p = some w') :
    w'.1.clientAccept = w.1.clientAccept - 1 ∧
      w'.2 = { w.2 with clientsChange := true } := by
  obtain ⟨n, hn, rfl⟩ := Option.map_eq_some_iff.mp h
  exact ⟨(Net.delete_spec hn).1, rfl⟩

/-- A client that leaves and whose entry is erased, in either order. -/
theorem Tables.release {w : Worker π} (h : Tables cap seated waiting w) {e : SOCKET × Ptr}
    (he : e ∈ w.2.clients.entries) : ∃ n', (w.1.onNetLeave e.2).delete e.2 = some n' ∧
      Roster cap n' ((w.2.eraseClient e.1).seats ++ seated) (w.2.clientsBuff ++ waiting) [] := by
  have hp : (w.2.seats ++ seated).Perm
      (w.2.seat e :: ((w.2.eraseClient e.1).seats ++ seated)) :=
    ((OrderedMap.perm_erase he).map w.2.seat).append_right _
  rcases Roster.release (h.perm hp (.refl _) (.refl _)) with ⟨n', hn, -, hr⟩
  exact ⟨n', hn, hr⟩

theorem kept_erase {s : CellServer π} {e f : SOCKET × Ptr} (he : e ∈ s.clients.entries)
    (hf : f ∈ s.clients.entries) (hne : f.2 ≠ e.2) : f ∈ (s.eraseClient e.1).clients.entries := by
  refine OrderedMap.mem_erase.mpr ⟨hf, fun hk => hne ?_⟩
  rw [OrderedMap.eq_of_key hf he hk]

/-- `OnClientLeave` before the entry is erased. -/
theorem Tables.onClientLeave {w : Worker π} (h : Tables cap seated waiting w)
    {e : SOCKET × Ptr} (he : e ∈ w.2.clients.entries) :
    ∃ w', w.onClientLeave e.2 = some w' ∧
      Visited cap seated waiting e.2 w (w'.1, w'.2.eraseClient e.1) := by
  rcases h.release he with ⟨n', hn, hr⟩
  refine ⟨_, by rw [Worker.onClientLeave, hn, Option.map_some], ?_⟩
  exact ⟨hr, rfl, fun f hf hne => kept_erase he hf hne⟩

/-- `OnClientLeave` after the entry is erased. -/
theorem Tables.onClientLeave_erased {w : Worker π} (h : Tables cap seated waiting w)
    {e : SOCKET × Ptr} (he : e ∈ w.2.clients.entries) :
    ∃ w', Worker.onClientLeave (w.1, w.2.eraseClient e.1) e.2 = some w' ∧
      Visited cap seated waiting e.2 w w' := by
  rcases h.release he with ⟨n', hn, hr⟩
  refine ⟨_, by rw [Worker.onClientLeave, hn, Option.map_some], ?_⟩
  exact ⟨hr, rfl, fun f hf hne => kept_erase he hf hne⟩

/-! ### Loops -/

/-- A loop whose body visits one client of the table at a time, each client once. -/
theorem Tables.visitAll {β : Type} {f : Worker π → β → Option (Worker π)}
    {R : β → SOCKET × Ptr → Prop}
    (hf : ∀ w b e, R b e → Tables cap seated waiting w → e ∈ w.2.clients.entries →
      ∃ w', f w b = some w' ∧ Visited cap seated waiting e.2 w w')
    {l : List β} {w : Worker π} (h : Tables cap seated waiting w)
    (hd : l.Pairwise fun b b' => ∀ e e', R b e → R b' e' → e.2 ≠ e'.2)
    (hin : ∀ b ∈ l, ∃ e, R b e ∧ e ∈ w.2.clients.entries) :
    ∃ w', l.foldlM f w = some w' ∧ Tables cap seated waiting w' ∧ w'.2.id = w.2.id := by
  have hloop := foldlM_some (f := f)
    (P := fun l w' => (Tables cap seated waiting w' ∧ w'.2.id = w.2.id) ∧
      (l.Pairwise fun b b' => ∀ e e', R b e → R b' e' → e.2 ≠ e'.2) ∧
      ∀ b ∈ l, ∃ e, R b e ∧ e ∈ w'.2.clients.entries) ?_ ⟨⟨h, rfl⟩, hd, hin⟩
  · exact hloop.imp fun w' hw' => ⟨hw'.1, hw'.2.1⟩
  · rintro b l w₁ ⟨⟨ht, hid⟩, hd, hin⟩
    rcases hin b List.mem_cons_self with ⟨e, hr, he⟩
    rcases hf w₁ b e hr ht he with ⟨w₂, hw, hv⟩
    refine ⟨w₂, hw, ⟨hv.tables, hv.id.trans hid⟩, hd.of_cons, fun b' hb' => ?_⟩
    rcases hin b' (List.mem_cons_of_mem _ hb') with ⟨e', hr', he'⟩
    refine ⟨e', hr', hv.kept e' he' fun heq => ?_⟩
    exact List.rel_of_pairwise_cons hd hb' e e' hr hr' heq.symm

/-- The loop over `_clients`. -/
theorem Tables.visitEntries {body : Worker π → SOCKET × Ptr → Option (Worker π)}
    (hb : ∀ w e, Tables cap seated waiting w → e ∈ w.2.clients.entries →
      ∃ w', body w e = some w' ∧ Visited cap seated waiting e.2 w w')
    {w : Worker π} (h : Tables cap seated waiting w) :
    ∃ w', w.2.clients.entries.foldlM body w = some w' ∧ Tables cap seated waiting w' ∧
      w'.2.id = w.2.id := by
  refine h.visitAll (R := fun b e => b = e) ?_ ?_ fun b hb => ⟨b, rfl, hb⟩
  · rintro w b _ rfl
    exact hb w b
  · refine (List.pairwise_map.mp h.ptr_nodup).imp ?_
    rintro b b' hne _ _ rfl rfl
    exact hne

/-! ### The functions -/

theorem Tables.checkClient {w : Worker π} (h : Tables cap seated waiting w) (dt : ℤ)
    {e : SOCKET × Ptr} (he : e ∈ w.2.clients.entries) :
    ∃ w', Worker.checkClient false dt w e = some w' ∧
      Visited cap seated waiting e.2 w w' := by
  rcases h.get? he with ⟨c, hc, hk⟩
  have ht := h.setClient hc (d := (c.checkHeart dt).1) rfl
  rw [Worker.checkClient, hc, Option.bind_eq_bind, Option.bind_some]
  by_cases hd : (c.checkHeart dt).2 = true
  · rcases ht.onClientLeave he with ⟨w', hw, hv⟩
    refine ⟨_, ?_, hv.tables, hv.id, hv.kept⟩
    rw [if_pos hd, Bool.false_and, if_neg Bool.false_ne_true, hw]
    rfl
  · refine ⟨_, if_neg hd, ⟨ht, rfl, fun _ hf _ => hf⟩⟩

theorem Tables.checkTime {w : Worker π} (h : Tables cap seated waiting w) (now : ℤ) :
    ∃ w', Worker.checkTime false now w = some w' ∧ Tables cap seated waiting w' ∧
      w'.2.id = w.2.id :=
  visitEntries (w := (w.1, { w.2 with oldTime := now })) (fun _ _ h he => h.checkClient _ he) h

/-- A socket call on behalf of a client changes its data only. -/
theorem Tables.recvData {w : Worker π} (h : Tables cap seated waiting w) {e : SOCKET × Ptr}
    (he : e ∈ w.2.clients.entries) (recv : Option (List UInt8)) :
    ∃ n r, Worker.recvData w e.2 recv = some ((n, w.2), r) ∧
      Tables cap seated waiting (n, w.2) := by
  rcases h.get? he with ⟨c, hc, hk⟩
  have ht := h.setClient hc (d := (c.recvData recv).1) rfl
  rw [Worker.recvData, hc, Option.bind_eq_bind, Option.bind_some]
  by_cases hr : (c.recvData recv).2 ≤ 0
  · exact ⟨_, _, if_pos hr, ht⟩
  · refine ⟨_, _, if_neg hr, ?_⟩
    exact Roster.congr ht (fun _ => rfl) rfl rfl rfl rfl rfl ht.registered

theorem Tables.sendDataReal {w : Worker π} (h : Tables cap seated waiting w)
    {e : SOCKET × Ptr} (he : e ∈ w.2.clients.entries) (ret : ℤ) :
    ∃ n r, Worker.sendDataReal w e.2 ret = some ((n, w.2), r) ∧
      Tables cap seated waiting (n, w.2) := by
  rcases h.get? he with ⟨c, hc, hk⟩
  have ht := h.setClient hc (d := (c.sendDataReal ret).1) rfl
  rw [Worker.sendDataReal, hc, Option.bind_eq_bind, Option.bind_some]
  exact ⟨_, _, rfl, ht⟩

/-- A socket call after which the client stays, or is removed. -/
theorem Tables.orRemove {f : Worker π → Option (Worker π × ℤ)}
    {g : Worker π → Option (Worker π)} {w : Worker π} {e : SOCKET × Ptr}
    (he : e ∈ w.2.clients.entries)
    (hf : ∃ n r, f w = some ((n, w.2), r) ∧ Tables cap seated waiting (n, w.2))
    (hg : ∀ n, Tables cap seated waiting (n, w.2) →
      ∃ w', g (n, w.2) = some w' ∧ Visited cap seated waiting e.2 (n, w.2) w') :
    ∃ w' b, Worker.orRemove f g w = some (w', b) ∧ Visited cap seated waiting e.2 w w' ∧
      (b = false → e ∈ w'.2.clients.entries) := by
  rcases hf with ⟨n, r, hf, ht⟩
  rw [Worker.orRemove, hf, Option.bind_eq_bind, Option.bind_some]
  by_cases hr : r = SOCKET_ERROR
  · rcases hg n ht with ⟨w', hw, hv⟩
    refine ⟨w', true, ?_, ⟨hv.tables, hv.id, hv.kept⟩, nofun⟩
    rw [if_pos hr, hw, Option.map_some]
  · exact ⟨(n, w.2), false, if_neg hr, ⟨ht, rfl, fun _ hf _ => hf⟩, fun _ => he⟩

theorem msgBody_sockfd {σ : Type} {onNetMsg : Handler σ} (hk : onNetMsg.KeepsSock) (ext : σ)
    (c : CellClient) : (msgBody onNetMsg (ext, c)).2.sockfd = c.sockfd := by
  rw [msgBody, CellClient.popFrontMsg]
  split <;> exact hk ext c _

/-- Messages change the data of a client only, as long as the handler keeps its socket. -/
theorem Tables.handleMsg {σ : Type} {onNetMsg : Handler σ} (hk : onNetMsg.KeepsSock)
    {w : Worker π} (h : Tables cap seated waiting w) {e : SOCKET × Ptr}
    (he : e ∈ w.2.clients.entries) (ext : σ) :
    ∃ n ext', Worker.handleMsg onNetMsg w ext e.2 = some ((n, w.2), ext') ∧
      Tables cap seated waiting (n, w.2) := by
  rcases h.get? he with ⟨c, hc, -⟩
  rw [Worker.handleMsg, hc, Option.bind_eq_bind, Option.bind_some]
  by_cases hm : c.hasMsg
  · refine ⟨_, _, if_pos hm, ?_⟩
    have ht := h.setClient hc (msgBody_sockfd hk ext c)
    exact Roster.congr ht (fun _ => rfl) rfl rfl rfl rfl rfl ht.registered
  · exact ⟨w.1, ext, if_neg hm, h⟩

/-! ### Taking up the clients that wait -/

/-- A client that waited is entered into the table under a new key. -/
theorem enter_roster {w : Worker π} {p : Ptr} {detached : List Ptr}
    (h : Roster cap w.1 (w.2.seats ++ seated) (p :: waiting) detached) :
    ∃ c, w.1.heap.get? p = some c ∧ (∀ e ∈ w.2.clients.entries, e.1 ≠ c.sockfd) ∧
      enter w p = some ((w.1.setClient p { c with serverId := w.2.id }).onNetJoin,
        w.2.insertClient c.sockfd p) ∧
      Roster cap (w.1.setClient p { c with serverId := w.2.id }).onNetJoin
        ((w.2.insertClient c.sockfd p).seats ++ seated) waiting detached := by
  rcases h.get?_of_waiting List.mem_cons_self with ⟨c, hc, hfresh⟩
  have hk : ∀ e ∈ w.2.clients.entries, e.1 ≠ c.sockfd :=
    fun e he => hfresh _ (List.mem_append_left _ (mem_seats he))
  have hp : w.1.sockfd? p = some c.sockfd := Net.sockfd?_eq_some.mpr ⟨c, hc, rfl⟩
  have hi : (w.2.insertClient c.sockfd p).seats.Perm (w.2.seat (c.sockfd, p) :: w.2.seats) :=
    (OrderedMap.perm_insert hk p).map w.2.seat
  refine ⟨c, hc, hk, by rw [enter, hc]; rfl, ?_⟩
  have hs := (h.seat hp w.2.id).perm (hi.symm.append_right seated) (.refl _) (.refl _)
  exact hs.setClient (d := { c with serverId := w.2.id }) hc rfl

theorem mem_insertClient {s : CellServer π} {k : SOCKET} {p : Ptr}
    (hk : ∀ e ∈ s.clients.entries, e.1 ≠ k) {e : SOCKET × Ptr} :
    e ∈ (s.insertClient k p).clients.entries ↔ e = (k, p) ∨ e ∈ s.clients.entries :=
  (OrderedMap.perm_insert hk p).mem_iff.trans List.mem_cons

/-- `OnClientJoin` of a derived class keeps the roster. -/
def JoinKeeps (onClientJoin : Worker π → Ptr → Option (Worker π)) : Prop :=
  ∀ cap seated waiting (w : Worker π) e, Roster cap w.1 (w.2.seats ++ seated) waiting [] →
    e ∈ w.2.clients.entries → ∃ n, onClientJoin w e.2 = some (n, w.2) ∧
      Roster cap n (w.2.seats ++ seated) waiting []

theorem takeUp_roster {onClientJoin : Worker π → Ptr → Option (Worker π)}
    (hj : JoinKeeps onClientJoin) {w : Worker π} {p : Ptr}
    (h : Roster cap w.1 (w.2.seats ++ seated) (p :: waiting) []) :
    ∃ w', takeUp onClientJoin w p = some w' ∧
      Roster cap w'.1 (w'.2.seats ++ seated) waiting [] ∧ w'.2.id = w.2.id := by
  rcases enter_roster h with ⟨c, -, hk, he, hr⟩
  have hmem := (mem_insertClient hk (p := p)).mpr (.inl rfl)
  generalize hw₁ : (_, w.2.insertClient c.sockfd p) = w₁ at he
  have hr₁ : Roster cap w₁.1 (w₁.2.seats ++ seated) waiting [] := hw₁ ▸ hr
  have hmem₁ : (c.sockfd, p) ∈ w₁.2.clients.entries := hw₁ ▸ hmem
  have hid₁ : w₁.2.id = w.2.id := hw₁ ▸ rfl
  rcases hj cap seated waiting w₁ _ hr₁ hmem₁ with ⟨n, hn, hr⟩
  exact ⟨(n, w₁.2), by rw [takeUp, he, Option.bind_some, hn], hr, hid₁⟩

theorem Tables.drain {onClientJoin : Worker π → Ptr → Option (Worker π)}
    (hj : JoinKeeps onClientJoin) {w : Worker π} (h : Tables cap seated waiting w) :
    ∃ w', Worker.drain onClientJoin w = some w' ∧ Tables cap seated waiting w' ∧
      w'.2.id = w.2.id := by
  rw [Worker.drain]
  by_cases hb : w.2.clientsBuff = []
  · exact ⟨w, if_pos hb, h, rfl⟩
  · have hloop := foldlM_some (f := takeUp onClientJoin)
      (P := fun ps w' => Roster cap w'.1 (w'.2.seats ++ seated) (ps ++ waiting) [] ∧
        w'.2.id = w.2.id) ?_ ⟨h, rfl⟩
    · rcases hloop with ⟨w', hw, hr, hid⟩
      refine ⟨(w'.1, { w'.2 with clientsBuff := [], clientsChange := true }), ?_, hr, hid⟩
      rw [if_neg hb, hw, Option.map_some]
    · rintro p ps w₁ ⟨hr, hid⟩
      rcases takeUp_roster hj hr with ⟨w₂, hw, hr, hid'⟩
      exact ⟨w₂, hw, hr, hid'.trans hid⟩

end Worker

end CellNet
