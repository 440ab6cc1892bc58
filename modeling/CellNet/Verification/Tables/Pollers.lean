import CellNet.Model.EasyTcpServer
import CellNet.Verification.Tables.Workers

/-! The polls of the two classes of workers: each client whose socket fails is taken out
of the table and leaves. -/

namespace CellNet

open Library Worker

variable {cap : ℤ} {seated : List Seat} {waiting : List Ptr}

/-! ### Epoll -/

namespace CellEpollServer

theorem joinKeeps : JoinKeeps onClientJoin := by
  intro cap seated waiting w e h he
  have hseat : w.2.seat e ∈ w.2.seats ++ seated := List.mem_append_left _ (mem_seats he)
  rcases h.get?_of_seated hseat with ⟨c, hc, hk⟩
  refine ⟨{ w.1 with registered := ⟨w.2.id, c.sockfd, e.2, false⟩ :: w.1.registered }, ?_, ?_⟩
  · have hc' : w.1.heap.get? e.2 = some c := hc
    rw [onClientJoin, ctlAdd, hc']
    rfl
  · refine h.congr (fun _ => rfl) rfl rfl rfl rfl rfl fun g hg => ?_
    rcases List.mem_cons.mp hg with rfl | hg
    · rw [hk]
      exact hseat
    · exact h.registered g hg

theorem ctlMod_tables {w : Worker Unit} (h : Tables cap seated waiting w) {e : SOCKET × Ptr}
    (he : e ∈ w.2.clients.entries) : ∃ n, ctlMod w.1 w.2.id e.2 = some n ∧
      Tables cap seated waiting (n, w.2) := by
  rcases h.get? he with ⟨c, hc, hk⟩
  refine ⟨_, by rw [ctlMod, hc]; rfl, ?_⟩
  refine Roster.congr h (fun _ => rfl) rfl rfl rfl rfl rfl fun g hg => ?_
  rcases List.mem_map.mp hg with ⟨g', hg', rfl⟩
  split
  · rw [hk]
    exact List.mem_append_left _ (mem_seats he)
  · exact h.registered g' hg'

theorem modClients_tables {w : Worker Unit} (h : Tables cap seated waiting w) :
    ∃ n, modClients w.1 w.2 = some n ∧ Tables cap seated waiting (n, w.2) := by
  have hloop := foldlM_some (f := fun n (e : SOCKET × Ptr) => ctlMod n w.2.id e.2)
    (P := fun es n => Tables cap seated waiting (n, w.2) ∧ ∀ e ∈ es, e ∈ w.2.clients.entries)
    ?_ ⟨h, fun _ he => he⟩
  · exact hloop.imp fun n hn => ⟨hn.1, hn.2.1⟩
  · rintro e es n ⟨ht, hin⟩
    rcases ctlMod_tables ht (hin e List.mem_cons_self) with ⟨n', hn, ht'⟩
    exact ⟨n', hn, ht', fun f hf => hin f (List.mem_cons_of_mem _ hf)⟩

theorem rmClient_tables {w : Worker Unit} (h : Tables cap seated waiting w)
    {e : SOCKET × Ptr} (he : e ∈ w.2.clients.entries) :
    ∃ w', rmClient e.2 w = some w' ∧ Visited cap seated waiting e.2 w w' := by
  rcases h.get? he with ⟨c, hc, hk⟩
  have hf : w.2.clients.find? c.sockfd = some e.2 := OrderedMap.find?_eq_some_iff.mpr (hk ▸ he)
  rcases h.onClientLeave_erased he with ⟨w', hw, hv⟩
  refine ⟨w', ?_, hv⟩
  rw [rmClient, hc, Option.bind_eq_bind, Option.bind_some, hf, Option.isSome_some, if_pos rfl, hk]
  exact hw

theorem readEvent_tables {w : Worker Unit} (h : Tables cap seated waiting w)
    (ev : EpollEvent) {e : SOCKET × Ptr} (hp : e.2 = ev.ptr) (he : e ∈ w.2.clients.entries) :
    ∃ w' b, readEvent w ev = some (w', b) ∧ Visited cap seated waiting e.2 w w' ∧
      (b = false → e ∈ w'.2.clients.entries) := by
  rw [readEvent, ← hp]
  split
  · exact Tables.orRemove he (h.recvData he ev.recv) fun n ht => rmClient_tables ht he
  · exact ⟨w, false, rfl, .refl h _, fun _ => he⟩

theorem writeEvent_tables {w : Worker Unit} (h : Tables cap seated waiting w)
    (ev : EpollEvent) {e : SOCKET × Ptr} (hp : e.2 = ev.ptr) (he : e ∈ w.2.clients.entries) :
    ∃ w' b, writeEvent w ev = some (w', b) ∧ Visited cap seated waiting e.2 w w' ∧
      (b = false → e ∈ w'.2.clients.entries) := by
  rw [writeEvent, ← hp]
  split
  · exact Tables.orRemove he (h.sendDataReal he ev.ret) fun n ht => rmClient_tables ht he
  · exact ⟨w, false, rfl, .refl h _, fun _ => he⟩

theorem onEvent_tables {w : Worker Unit} (h : Tables cap seated waiting w) (ev : EpollEvent)
    {e : SOCKET × Ptr} (hp : e.2 = ev.ptr) (he : e ∈ w.2.clients.entries) :
    ∃ w', onEvent w ev = some w' ∧ Visited cap seated waiting e.2 w w' := by
  rcases readEvent_tables h ev hp he with ⟨w₁, b, hw₁, hv₁, hb⟩
  rw [onEvent, hw₁, Option.bind_eq_bind, Option.bind_some]
  cases b with
  | true => exact ⟨w₁, rfl, hv₁⟩
  | false =>
      rcases writeEvent_tables hv₁.tables ev hp (hb rfl) with ⟨w₂, b, hw₂, hv₂, -⟩
      refine ⟨w₂, ?_, hv₁.trans hv₂⟩
      rw [if_neg Bool.false_ne_true, hw₂, Option.map_some]

/-- A registration of this instance belongs to an entry of this table. -/
theorem registered_here {n : Net} {s : CellServer Unit} (h : Tables cap seated waiting (n, s))
    (hid : ∀ x ∈ seated, x.id ≠ s.id) {g : Registration} (hg : g ∈ n.registered)
    (he : g.epfd = s.id) : ∃ e : SOCKET × Ptr, e.2 = g.ptr ∧ e ∈ s.clients.entries := by
  rcases List.mem_append.mp (h.registered g hg) with hs | hs
  · rcases List.mem_map.mp hs with ⟨e, hin, hes⟩
    exact ⟨e, congrArg Seat.ptr hes, hin⟩
  · exact absurd he (hid _ hs)

theorem doNetEvent_tables {w : Worker Unit} (h : Tables cap seated waiting w)
    (hid : ∀ x ∈ seated, x.id ≠ w.2.id) {a : EpollAnswer} (hr : Reports w a) :
    ∃ w' b, doNetEvent w a = some (w', b) ∧ Tables cap seated waiting w' ∧
      w'.2.id = w.2.id := by
  rcases modClients_tables h with ⟨n, hn, ht⟩
  rw [doNetEvent, hn, Option.bind_eq_bind, Option.bind_some]
  cases a with
  | error => exact ⟨(n, w.2), false, rfl, ht, rfl⟩
  | events evs =>
      rcases hr n evs hn rfl with ⟨hnd, hreg⟩
      have hloop := ht.visitAll (f := onEvent) (R := fun ev e => e.2 = ev.ptr) (l := evs)
        (fun w ev e hp h he => onEvent_tables h ev hp he) ?_ ?_
      · rcases hloop with ⟨w', hw, ht', hid'⟩
        exact ⟨w', true, by simp only [hw, Option.map_some], ht', hid'⟩
      · refine (List.pairwise_map.mp hnd).imp fun hne e e' he he' heq => hne ?_
        rw [← he, ← he', heq]
      · intro ev hev
        rcases hreg ev hev with ⟨g, hg, hge, hgp, -⟩
        exact hgp ▸ registered_here ht hid hg hge

end CellEpollServer

/-! ### Select -/

namespace CellSelectServer

theorem joinKeeps : JoinKeeps onClientJoin :=
  fun _ _ _ w _ h _ => ⟨w.1, rfl, h⟩

/-- Preparing the sets touches nothing else. -/
theorem prepareRead_eq_some {w : Worker SelectSets} (h : Tables cap seated waiting w)
    (hne : w.2.clients.entries ≠ []) :
    ∃ change sets, prepareRead w.1 w.2 =
      some { w.2 with clientsChange := change, poller := sets } := by
  rw [prepareRead]
  split
  · rw [rebuild]
    split
    · contradiction
    · next first rest hes =>
        rcases h.get? (hes ▸ List.mem_cons_self) with ⟨c, hc, -⟩
        have hs : w.1.sockfd? first.2 = some c.sockfd := Net.sockfd?_eq_some.mpr ⟨c, hc, rfl⟩
        exact ⟨_, _, by rw [hs, Option.map_some]⟩
  · exact ⟨_, _, rfl⟩

theorem needWrite_eq_some {w : Worker SelectSets} (h : Tables cap seated waiting w)
    {e : SOCKET × Ptr} (he : e ∈ w.2.clients.entries) : ∃ b, needWrite w.1 e.2 = some b := by
  rcases h.get? he with ⟨c, hc, -⟩
  exact ⟨c.needWrite, by rw [needWrite, hc, Option.map_some]⟩

theorem writeSet_eq_some {w : Worker SelectSets} (h : Tables cap seated waiting w) :
    ∃ x, writeSet w.1 w.2 = some x := by
  have hloop := foldlM_some (f := fun (x : CellFDSet × Bool) (e : SOCKET × Ptr) =>
      (needWrite w.1 e.2).map fun b => if b then (CellFDSet.add x.1 e.1, true) else x)
    (P := fun es _ => ∀ e ∈ es, e ∈ w.2.clients.entries) (x := ([], false)) ?_ fun _ he => he
  · exact hloop.imp fun x hx => hx.1
  · intro e es x hin
    rcases needWrite_eq_some h (hin e List.mem_cons_self) with ⟨b, hb⟩
    exact ⟨_, by rw [hb, Option.map_some], fun f hf => hin f (List.mem_cons_of_mem _ hf)⟩

theorem remove_tables {w : Worker SelectSets} (h : Tables cap seated waiting w)
    {e : SOCKET × Ptr} (he : e ∈ w.2.clients.entries) :
    ∃ w', remove e w = some w' ∧ Visited cap seated waiting e.2 w w' := by
  rcases h.onClientLeave he with ⟨w', hw, hv⟩
  exact ⟨_, by rw [remove, hw, Option.map_some], hv⟩

/-- The body of a loop over sockets visits the client it is given. -/
def Visits (cap : ℤ) (seated : List Seat) (waiting : List Ptr)
    (body : Worker SelectSets → SOCKET × Ptr → Option (Worker SelectSets)) : Prop :=
  ∀ w e, Tables cap seated waiting w → e ∈ w.2.clients.entries →
    ∃ w', body w e = some w' ∧ Visited cap seated waiting e.2 w w'

theorem readEntry_visits (a : SelectAnswer) : Visits cap seated waiting (readEntry a) := by
  intro w e h he
  rcases Tables.orRemove (f := fun w => w.recvData e.2 (a.recv e.1)) (g := remove e) he
    (h.recvData he (a.recv e.1)) (fun n ht => remove_tables ht he) with ⟨w', b, hw, hv, -⟩
  exact ⟨w', by rw [readEntry, hw, Option.map_some], hv⟩

theorem writeEntry_visits (a : SelectAnswer) : Visits cap seated waiting (writeEntry a) := by
  intro w e h he
  rcases Tables.orRemove (f := fun w => w.sendDataReal e.2 (a.ret e.1)) (g := remove e) he
    (h.sendDataReal he (a.ret e.1)) (fun n ht => remove_tables ht he) with ⟨w', b, hw, hv, -⟩
  exact ⟨w', by rw [writeEntry, hw, Option.map_some], hv⟩

section Loops

variable {body : Worker SelectSets → SOCKET × Ptr → Option (Worker SelectSets)}

theorem overArray_tables (hb : Visits cap seated waiting body) (set : CellFDSet)
    {w : Worker SelectSets} (h : Tables cap seated waiting w) :
    ∃ w', overArray body set w = some w' ∧ Tables cap seated waiting w' ∧
      w'.2.id = w.2.id := by
  have hloop := foldlM_some (l := set) (f := lookUp body)
    (P := fun _ w' => Tables cap seated waiting w' ∧ w'.2.id = w.2.id) ?_ ⟨h, rfl⟩
  · exact hloop
  · rintro fd _ w₁ ⟨ht, hid⟩
    rw [lookUp]
    cases hf : w₁.2.clients.find? fd with
    | none => exact ⟨w₁, rfl, ht, hid⟩
    | some p =>
        rcases hb w₁ (fd, p) ht (OrderedMap.find?_eq_some_iff.mp hf) with ⟨w₂, hw, hv⟩
        exact ⟨w₂, hw, hv.tables, hv.id.trans hid⟩

theorem overClients_tables (hb : Visits cap seated waiting body)
    (test : Net → Ptr → Option Bool) (set : CellFDSet) {w : Worker SelectSets}
    (ht : ∀ (w : Worker SelectSets) e, Tables cap seated waiting w → e ∈ w.2.clients.entries →
      ∃ b, test w.1 e.2 = some b) (h : Tables cap seated waiting w) :
    ∃ w', overClients body test set w = some w' ∧ Tables cap seated waiting w' ∧
      w'.2.id = w.2.id := by
  refine h.visitEntries fun w e h he => ?_
  rcases ht w e h he with ⟨b, hbt⟩
  rw [hbt, Option.bind_eq_bind, Option.bind_some]
  split
  · exact hb w e h he
  · exact ⟨w, rfl, .refl h _⟩

end Loops

theorem readData_tables (platform : Platform) (a : SelectAnswer) {w : Worker SelectSets}
    (h : Tables cap seated waiting w) :
    ∃ w', readData platform a w = some w' ∧ Tables cap seated waiting w' ∧
      w'.2.id = w.2.id := by
  cases platform with
  | windows => exact overArray_tables (readEntry_visits a) _ h
  | linux =>
      exact overClients_tables (readEntry_visits a) (fun _ _ => some true) _
        (fun _ _ _ _ => ⟨true, rfl⟩) h

theorem writeData_tables (platform : Platform) (a : SelectAnswer) {w : Worker SelectSets}
    (h : Tables cap seated waiting w) :
    ∃ w', writeData platform a w = some w' ∧ Tables cap seated waiting w' ∧
      w'.2.id = w.2.id := by
  cases platform with
  | windows => exact overArray_tables (writeEntry_visits a) _ h
  | linux =>
      exact overClients_tables (writeEntry_visits a) needWrite _
        (fun _ _ h he => needWrite_eq_some h he) h

theorem afterSelect_tables (platform : Platform) (a : SelectAnswer) {w : Worker SelectSets}
    (h : Tables cap seated waiting w) :
    ∃ w' b, afterSelect platform a w = some (w', b) ∧ Tables cap seated waiting w' ∧
      w'.2.id = w.2.id := by
  rw [afterSelect]
  split
  · exact ⟨w, true, rfl, h, rfl⟩
  · rcases readData_tables platform a h with ⟨w₁, hw₁, h₁, hid₁⟩
    rcases writeData_tables platform a h₁ with ⟨w₂, hw₂, h₂, hid₂⟩
    refine ⟨w₂, true, ?_, h₂, hid₂.trans hid₁⟩
    rw [hw₁, Option.bind_eq_bind, Option.bind_some, hw₂]
    rfl

theorem doNetEvent_tables (platform : Platform) {w : Worker SelectSets}
    (h : Tables cap seated waiting w) {a : SelectAnswer} (hr : Reports w a) :
    ∃ w' b, doNetEvent platform w a = some (w', b) ∧ Tables cap seated waiting w' ∧
      w'.2.id = w.2.id := by
  rcases prepareRead_eq_some h hr.1 with ⟨change, sets, hs⟩
  rcases writeSet_eq_some
    (w := (w.1, { w.2 with clientsChange := change, poller := sets })) h with ⟨x, hx⟩
  rw [doNetEvent, hs, Option.bind_eq_bind, Option.bind_some]
  dsimp only at hx ⊢
  rw [hx, Option.bind_eq_bind, Option.bind_some]
  cases a.result with
  | error eintr => exact ⟨_, eintr, rfl, h, rfl⟩
  | ready read write => exact afterSelect_tables platform a h

end CellSelectServer

/-! ### Both classes -/

theorem ServerT.joinKeeps (t : ServerT) : JoinKeeps t.onClientJoin := by
  cases t with
  | epoll => exact CellEpollServer.joinKeeps
  | select platform => exact CellSelectServer.joinKeeps

theorem ServerT.doNetEvent_tables (t : ServerT) {w : Worker t.Poller}
    (h : Tables cap seated waiting w) (hid : ∀ x ∈ seated, x.id ≠ w.2.id) {a : t.Answer}
    (hr : t.Reports w a) : ∃ w' b, t.doNetEvent w a = some (w', b) ∧
      Tables cap seated waiting w' ∧ w'.2.id = w.2.id := by
  cases t with
  | epoll => exact CellEpollServer.doNetEvent_tables h hid hr
  | select platform => exact CellSelectServer.doNetEvent_tables platform h hr

end CellNet
