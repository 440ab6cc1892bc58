import CellNet.Verification.Loop.Semantics

/-! The cached sets of the select server. Between a rebuild and the next mark of a changed table
the backup of the read set and `_maxSock` are those of the table. -/

namespace CellNet

open Library Worker CellServer

variable {σ : Type}

namespace CellSelectServer

/-- The read set that a rebuild makes of a table. -/
def readSet (clients : OrderedMap SOCKET Ptr) : CellFDSet :=
  clients.entries.foldl (fun set e => CellFDSet.add set e.1) []

/-- The `_maxSock` that a rebuild makes of a table, starting from `fd`. -/
def topSock (fd : SOCKET) (clients : OrderedMap SOCKET Ptr) : SOCKET :=
  clients.entries.foldl (fun m e => if e.1 > m then e.1 else m) fd

/-- Without a mark, the cached sets are what a rebuild makes of the table. -/
def SetsOk (s : CellServer SelectSets) : Prop :=
  s.clientsChange = false → ∃ first rest, s.clients.entries = first :: rest ∧
    s.poller.fdReadBak = readSet s.clients ∧ s.poller.maxSock = topSock first.1 s.clients

/-! ### What a rebuild makes -/

theorem mem_add {set : CellFDSet} {fd fd' : SOCKET} :
    fd' ∈ set.add fd ↔ fd' ∈ set ∨ fd' = fd := by
  rw [CellFDSet.add]
  split
  · next h =>
      constructor
      · exact .inl
      · intro h'
        rcases h' with h' | rfl
        · exact h'
        · exact h
  · simp

theorem mem_readSet {clients : OrderedMap SOCKET Ptr} {fd : SOCKET} :
    fd ∈ readSet clients ↔ ∃ e ∈ clients.entries, e.1 = fd := by
  have hfold : ∀ (es : List (SOCKET × Ptr)) (set : CellFDSet),
      fd ∈ es.foldl (fun set e => CellFDSet.add set e.1) set ↔
        fd ∈ set ∨ ∃ e ∈ es, e.1 = fd := by
    intro es
    induction es with
    | nil => simp
    | cons e es ih =>
        intro set
        rw [List.foldl_cons, ih, mem_add]
        simp [or_assoc, eq_comm]
  simpa [readSet] using hfold clients.entries []

/-- The loop finds the greatest key, if it starts from one of them. -/
theorem topSock_isGreatest {clients : OrderedMap SOCKET Ptr} {fd : SOCKET}
    (h : ∃ e ∈ clients.entries, e.1 = fd) :
    IsGreatest {k | ∃ e ∈ clients.entries, e.1 = k} (topSock fd clients) := by
  have hfold : ∀ (es : List (SOCKET × Ptr)) (fd : SOCKET),
      fd ≤ es.foldl (fun m e => if e.1 > m then e.1 else m) fd ∧
      (∀ e ∈ es, e.1 ≤ es.foldl (fun m e => if e.1 > m then e.1 else m) fd) ∧
      (es.foldl (fun m e => if e.1 > m then e.1 else m) fd = fd ∨
        ∃ e ∈ es, e.1 = es.foldl (fun m e => if e.1 > m then e.1 else m) fd) := by
    intro es
    induction es with
    | nil => simp
    | cons e es ih =>
        intro fd
        obtain ⟨hle, hall, hmem⟩ := ih (if e.1 > fd then e.1 else fd)
        have hmax : fd ≤ (if e.1 > fd then e.1 else fd) ∧
            e.1 ≤ (if e.1 > fd then e.1 else fd) := by
          split
          · next hgt => exact ⟨le_of_lt hgt, le_rfl⟩
          · next hgt => exact ⟨le_rfl, not_lt.mp hgt⟩
        rw [List.foldl_cons]
        refine ⟨hmax.1.trans hle, ?_, ?_⟩
        · intro e' he'
          rcases List.mem_cons.mp he' with rfl | he'
          · exact hmax.2.trans hle
          · exact hall e' he'
        · rcases hmem with hm | ⟨e', he', hm⟩
          · rw [hm]
            split
            · exact .inr ⟨e, by simp, rfl⟩
            · exact .inl rfl
          · exact .inr ⟨e', by simp [he'], hm⟩
  obtain ⟨-, hall, hmem⟩ := hfold clients.entries fd
  constructor
  · rcases hmem with hm | hm
    · rw [topSock, hm]
      exact h
    · exact hm
  · intro k hk
    obtain ⟨e, he, rfl⟩ := hk
    exact hall e he

theorem rebuild_cases {n : Net} {s s' : CellServer SelectSets} (h : rebuild n s = some s') :
    ∃ first rest fd, s.clients.entries = first :: rest ∧ n.sockfd? first.2 = some fd ∧
      s' = { s with
        clientsChange := false
        poller := { s.poller with
          fdRead := readSet s.clients
          fdReadBak := readSet s.clients
          maxSock := topSock fd s.clients } } := by
  rw [rebuild] at h
  split at h
  · cases h
  · next first rest he =>
      obtain ⟨fd, hfd, rfl⟩ := Option.map_eq_some_iff.mp h
      exact ⟨first, rest, fd, he, hfd, rfl⟩

theorem rebuild_eq {n : Net} {s : CellServer SelectSets} {first : SOCKET × Ptr}
    {rest : List (SOCKET × Ptr)} {fd : SOCKET} (he : s.clients.entries = first :: rest)
    (hfd : n.sockfd? first.2 = some fd) :
    rebuild n s = some { s with
      clientsChange := false
      poller := { s.poller with
        fdRead := readSet s.clients
        fdReadBak := readSet s.clients
        maxSock := topSock fd s.clients } } := by
  simp only [rebuild, he, hfd, Option.map_some, readSet, topSock]

/-! ### The sets through `DoNetEvent` -/

theorem SetsOk.marks {s s' : CellServer SelectSets} (h : SetsOk s) (hm : s.Marks s') :
    SetsOk s' := by
  intro hb
  rcases hm with ht | ⟨hc, hb', hp⟩
  · rw [ht] at hb
    cases hb
  · rw [hc, hp]
    exact h (hb' ▸ hb)

/-- A prepared worker has a client, and its cache is that of its table. -/
theorem prepareRead_setsOk {n : Net} {s s' : CellServer SelectSets} (h : SetsOk s)
    (hkeys : ∀ e ∈ s.clients.entries, n.sockfd? e.2 = some e.1)
    (hp : prepareRead n s = some s') :
    SetsOk s' ∧ s'.clients = s.clients ∧ s.clients.entries ≠ [] := by
  rw [prepareRead] at hp
  split at hp
  · obtain ⟨first, rest, fd, he, hfd, rfl⟩ := rebuild_cases hp
    have hkey := hkeys first (by simp [he])
    obtain rfl := Option.some.inj (hfd.symm.trans hkey)
    exact ⟨fun _ => ⟨first, rest, he, rfl, rfl⟩, rfl, by simp [he]⟩
  · next hc =>
      obtain rfl := Option.some.inj hp
      obtain ⟨first, rest, he, hbak, hmax⟩ := h (Bool.eq_false_iff.mpr hc)
      exact ⟨fun _ => ⟨first, rest, he, hbak, hmax⟩, rfl, by simp [he]⟩

theorem remove_marked {e : SOCKET × Ptr} {w w' : Worker SelectSets}
    (h : remove e w = some w') : w'.2.clientsChange = true := by
  obtain ⟨w₁, hw, rfl⟩ := Option.map_eq_some_iff.mp h
  have hm := (onClientLeave_spec hw).2
  simp only [CellServer.eraseClient, hm]

/-- The body of a loop marks the table if it changes it. -/
def BodyMarks (body : Worker SelectSets → SOCKET × Ptr → Option (Worker SelectSets)) : Prop :=
  ∀ w e w', body w e = some w' → w.2.Marks w'.2

theorem readEntry_marks (a : SelectAnswer) : BodyMarks (readEntry a) := by
  intro w e w' h
  obtain ⟨r, hr, rfl⟩ := Option.map_eq_some_iff.mp h
  exact orRemove_marks (fun _ => recvData_snd) (fun _ _ => remove_marked) hr

theorem writeEntry_marks (a : SelectAnswer) : BodyMarks (writeEntry a) := by
  intro w e w' h
  obtain ⟨r, hr, rfl⟩ := Option.map_eq_some_iff.mp h
  exact orRemove_marks (fun _ => sendDataReal_snd) (fun _ _ => remove_marked) hr

section Loops

variable {body : Worker SelectSets → SOCKET × Ptr → Option (Worker SelectSets)}

theorem overArray_marks (hb : BodyMarks body) {set : CellFDSet} {w w' : Worker SelectSets}
    (h : overArray body set w = some w') : w.2.Marks w'.2 := by
  apply foldlM_cases (P := fun _ x => w.2.Marks x.2) _ (.refl _) h
  intro fd fds x y hx hy
  rw [lookUp] at hy
  split at hy
  · obtain rfl := Option.some.inj hy
    exact hx
  · exact hx.trans (hb _ _ _ hy)

theorem overClients_marks (hb : BodyMarks body) (test : Net → Ptr → Option Bool)
    (set : CellFDSet) {w w' : Worker SelectSets} (h : overClients body test set w = some w') :
    w.2.Marks w'.2 := by
  apply foldlM_cases (P := fun _ x => w.2.Marks x.2) _ (.refl _) h
  intro e es x y hx hy
  obtain ⟨b, -, hy⟩ := Option.bind_eq_some_iff.mp hy
  split at hy
  · exact hx.trans (hb _ _ _ hy)
  · obtain rfl := Option.some.inj hy
    exact hx

end Loops

theorem readData_marks {platform : Platform} {a : SelectAnswer} {w w' : Worker SelectSets}
    (h : readData platform a w = some w') : w.2.Marks w'.2 := by
  cases platform with
  | windows => exact overArray_marks (readEntry_marks a) h
  | linux => exact overClients_marks (readEntry_marks a) (fun _ _ => some true) _ h

theorem writeData_marks {platform : Platform} {a : SelectAnswer} {w w' : Worker SelectSets}
    (h : writeData platform a w = some w') : w.2.Marks w'.2 := by
  cases platform with
  | windows => exact overArray_marks (writeEntry_marks a) h
  | linux => exact overClients_marks (writeEntry_marks a) needWrite _ h

theorem afterSelect_marks {platform : Platform} {a : SelectAnswer} {w : Worker SelectSets}
    {r : Worker SelectSets × Bool} (h : afterSelect platform a w = some r) :
    w.2.Marks r.1.2 := by
  rw [afterSelect] at h
  split at h
  · obtain rfl := Option.some.inj h
    exact .refl _
  · obtain ⟨w₁, h₁, h⟩ := Option.bind_eq_some_iff.mp h
    obtain ⟨w₂, h₂, h⟩ := Option.bind_eq_some_iff.mp h
    obtain rfl := Option.some.inj h
    exact (readData_marks h₁).trans (writeData_marks h₂)

/-- Clients may leave after the sets were built; that marks the table again. -/
theorem doNetEvent_setsOk {platform : Platform} {w : Worker SelectSets} {a : SelectAnswer}
    {r : Worker SelectSets × Bool} (h : SetsOk w.2)
    (hkeys : ∀ e ∈ w.2.clients.entries, w.1.sockfd? e.2 = some e.1)
    (hd : doNetEvent platform w a = some r) : SetsOk r.1.2 ∧ w.2.clients.entries ≠ [] := by
  obtain ⟨s, hs, hd⟩ := Option.bind_eq_some_iff.mp hd
  obtain ⟨x, -, hd⟩ := Option.bind_eq_some_iff.mp hd
  obtain ⟨hok, -, hne⟩ := prepareRead_setsOk h hkeys hs
  refine ⟨?_, hne⟩
  split at hd
  · obtain rfl := Option.some.inj hd
    exact hok
  · apply SetsOk.marks _ (afterSelect_marks hd)
    exact hok

end CellSelectServer

/-! ### The whole server -/

/-- The sets of a worker; one with epoll has none. -/
def ServerT.SetsOk : (t : ServerT) → CellServer t.Poller → Prop
  | .epoll => fun _ => True
  | .select _ => CellSelectServer.SetsOk

namespace ServerLoops

variable {t : ServerT} {onNetMsg : Handler σ} {s s' : ServerLoops t.Poller σ}

structure LoopsOk (s : ServerLoops t.Poller σ) : Prop where
  tables : s.server.TablesOk
  sets : ∀ c ∈ s.server.cellServers, t.SetsOk c

theorem setsOk_marks {c c' : CellServer t.Poller} (h : t.SetsOk c) (hm : c.Marks c') :
    t.SetsOk c' := by
  cases t with
  | epoll => trivial
  | select platform => exact CellSelectServer.SetsOk.marks h hm

/-- One worker has changed, and nothing of the others. -/
theorem LoopsOk.put (h : s.LoopsOk) {i : ℕ} {c : CellServer t.Poller}
    (hi : s.server.cellServers[i]? = some c) {w : Worker t.Poller} (pc : LoopPc)
    (hw : ∀ others waiters, (∀ x ∈ others, x.id ≠ c.id) →
      Tables s.server.capacity others waiters (s.server.net, c) →
      Tables s.server.capacity others waiters w ∧ w.2.id = c.id)
    (hs : t.SetsOk w.2) : (s.put i w pc).LoopsOk := by
  obtain ⟨others, waiters, ht₀, hid, hback⟩ := h.tables.worker hi
  obtain ⟨ht, hid'⟩ := hw others waiters hid ht₀
  constructor
  · exact hback w s.server.ext hid' ht
  · intro c' hc'
    rcases List.mem_or_eq_of_mem_set hc' with hc' | rfl
    · exact h.sets c' hc'
    · exact hs

/-- A function of one worker that is known to keep the roster. -/
theorem LoopsOk.put_of_some (h : s.LoopsOk) {i : ℕ} {c : CellServer t.Poller}
    (hi : s.server.cellServers[i]? = some c) {f : Worker t.Poller → Option (Worker t.Poller)}
    {w : Worker t.Poller} (hf : f (s.server.net, c) = some w) (pc : LoopPc)
    (hw : ∀ others waiters, (∀ x ∈ others, x.id ≠ c.id) →
      Tables s.server.capacity others waiters (s.server.net, c) →
      ∃ w, f (s.server.net, c) = some w ∧ Tables s.server.capacity others waiters w ∧
        w.2.id = c.id) (hs : t.SetsOk w.2) : (s.put i w pc).LoopsOk := by
  apply h.put hi pc _ hs
  intro others waiters hid ht
  obtain ⟨w', hw', ht', hid'⟩ := hw others waiters hid ht
  obtain rfl := Option.some.inj (hf.symm.trans hw')
  exact ⟨ht', hid'⟩

theorem LoopsOk.accpet (h : s.LoopsOk) {cSock : SOCKET} (hf : cSock ∉ s.server.net.openSocks)
    {sendBlock recvBlock : List UInt8} {server : EasyTcpServer t.Poller σ}
    (ha : s.server.accpet cSock sendBlock recvBlock = some server) :
    LoopsOk { s with server := server } := by
  constructor
  · rcases h.tables.accpet hf sendBlock recvBlock with ⟨server', ha', ht⟩ | ⟨-, ha'⟩
    · rw [ha] at ha'
      obtain rfl := Option.some.inj ha'
      exact ht
    · rw [ha] at ha'
      cases ha'
  · intro c hc
    rcases EasyTcpServer.accpet_cases ha with ⟨-, rfl | rfl⟩ | ⟨-, d, i, hd, rfl⟩
    · exact h.sets c hc
    · exact h.sets c hc
    · rcases List.mem_or_eq_of_mem_set hc with hc | rfl
      · exact h.sets c hc
      · apply setsOk_marks (h.sets d (List.mem_of_getElem? hd.mem))
        exact .inr ⟨rfl, rfl, rfl⟩

theorem LoopsOk.keys (h : s.LoopsOk) {i : ℕ} {c : CellServer t.Poller}
    (hi : s.server.cellServers[i]? = some c) {e : SOCKET × Ptr} (he : e ∈ c.clients.entries) :
    s.server.net.sockfd? e.2 = some e.1 := by
  obtain ⟨others, waiters, ht, -⟩ := h.tables.worker hi
  exact Net.sockfd?_eq_some.mpr (ht.get? he)

/-- A poll that does not fault had a client, and keeps the sets. -/
theorem LoopsOk.reports (h : s.LoopsOk) {i : ℕ} {c : CellServer t.Poller}
    (hi : s.server.cellServers[i]? = some c) {a : t.Answer}
    (ha : t.Answers (s.server.net, c) a) {r : Worker t.Poller × Bool}
    (hd : t.doNetEvent (s.server.net, c) a = some r) :
    t.Reports (s.server.net, c) a ∧ t.SetsOk r.1.2 := by
  have hsets := h.sets c (List.mem_of_getElem? hi)
  cases t with
  | epoll => exact ⟨ha, trivial⟩
  | select platform =>
      have hkeys : ∀ e ∈ c.clients.entries, s.server.net.sockfd? e.2 = some e.1 :=
        fun _ he => h.keys hi he
      obtain ⟨hs, hne⟩ := CellSelectServer.doNetEvent_setsOk (w := (s.server.net, c))
        hsets hkeys hd
      exact ⟨⟨hne, ha⟩, hs⟩

theorem LoopsOk.doNetEvent (h : s.LoopsOk) {i : ℕ} {c : CellServer t.Poller}
    (hi : s.server.cellServers[i]? = some c) {a : t.Answer}
    (ha : t.Answers (s.server.net, c) a) {r : Worker t.Poller × Bool}
    (hd : t.doNetEvent (s.server.net, c) a = some r) (pc : LoopPc) :
    (s.put i r.1 pc).LoopsOk := by
  obtain ⟨hr, hs⟩ := h.reports hi ha hd
  apply h.put hi pc _ hs
  intro others waiters hid ht
  obtain ⟨w, b, hw, ht', hid'⟩ := t.doNetEvent_tables ht hid hr
  obtain rfl := Option.some.inj (hd.symm.trans hw)
  exact ⟨ht', hid'⟩

theorem LoopsOk.doMsg (h : s.LoopsOk) (hk : onNetMsg.KeepsSock) {i : ℕ}
    (hd : Rounds onNetMsg s i s') : s'.LoopsOk := by
  cases hd with
  | done => exact ⟨h.tables, h.sets⟩
  | skip => exact ⟨h.tables, h.sets⟩
  | @handle k rest c p pClient hpc hi hp hg hm =>
      refine ⟨?_, h.sets⟩
      obtain ⟨others, waiters, ht, -, hback⟩ := h.tables.worker hi
      obtain ⟨n, ext, hn, ht'⟩ :=
        ht.handleMsg hk (OrderedMap.find?_eq_some_iff.mp hp) s.server.ext
      simp only [handleMsg, hg, Option.bind_eq_bind, Option.bind_some, hm, if_true,
        Option.some.injEq, Prod.mk.injEq, and_true] at hn
      obtain ⟨rfl, rfl⟩ := hn
      have hb := hback (_, c) (msgBody onNetMsg (s.server.ext, pClient)).1 rfl ht'
      rwa [set_getElem?_self hi] at hb

/-- The clients that wait are taken up. -/
theorem LoopsOk.drain (h : s.LoopsOk) {i : ℕ} {c : CellServer t.Poller}
    (hi : s.server.cellServers[i]? = some c) {w : Worker t.Poller}
    (hw : Worker.drain t.onClientJoin (s.server.net, c) = some w) :
    (∀ others waiters, (∀ x ∈ others, x.id ≠ c.id) →
      Tables s.server.capacity others waiters (s.server.net, c) →
      Tables s.server.capacity others waiters w ∧ w.2.id = c.id) ∧ t.SetsOk w.2 := by
  constructor
  · intro others waiters _ ht
    obtain ⟨w', hw', ht'⟩ := ht.drain t.joinKeeps
    obtain rfl := Option.some.inj (hw.symm.trans hw')
    exact ht'
  · exact setsOk_marks (h.sets c (List.mem_of_getElem? hi)) (drain_marks hw)

theorem LoopsOk.next (h : s.LoopsOk) (hk : onNetMsg.KeepsSock) {e : LoopEvent t.Answer}
    (hl : Legal t s e) (hn : ServerLoops.next t onNetMsg s e = some s') : s'.LoopsOk := by
  cases next_cases hn with
  | accpet ha => exact h.accpet hl.1 ha
  | stop => exact ⟨h.tables, h.sets⟩
  | @idle i now c w hi hw =>
      obtain ⟨htables, hsets⟩ := h.drain hi hw
      have hclock : w.2.Marks { w.2 with oldTime := now } := .inr ⟨rfl, rfl, rfl⟩
      exact h.put hi (w := (w.1, { w.2 with oldTime := now })) _ htables
        (setsOk_marks hsets hclock)
  | busy hi hw =>
      obtain ⟨htables, hsets⟩ := h.drain hi hw
      exact h.put hi _ htables hsets
  | @checkTime i now c w hi hw =>
      exact h.put_of_some hi hw _ (fun _ _ _ ht => ht.checkTime now)
        (setsOk_marks (h.sets c (List.mem_of_getElem? hi)) (checkTime_marks hw))
  | doNetEvent hi hd => exact h.doNetEvent hi (hl.2 _ hi) hd _
  | doMsg hd => exact h.doMsg hk hd

theorem start_loopsOk (nCellServer : ℕ) (nSend nRecv nMax : ℤ) (oldTime : ℕ → ℤ)
    (poller : t.Poller) (ext : σ) : LoopsOk (t := t)
      ⟨.start nCellServer nSend nRecv nMax oldTime poller ext,
        List.replicate nCellServer .test⟩ := by
  refine ⟨EasyTcpServer.start_tablesOk .., ?_⟩
  intro c hc
  obtain ⟨i, -, rfl⟩ := List.mem_map.mp hc
  cases t with
  | epoll => trivial
  | select platform => nofun

theorem loopsOk_of_reachable (hk : onNetMsg.KeepsSock)
    (h : (system t onNetMsg).Reachable s) : s.LoopsOk := by
  refine System.Invariant.reachable (P := LoopsOk) ⟨?_, ?_⟩ h
  · intro s hs
    obtain ⟨n, nSend, nRecv, nMax, oldTime, poller, ext, rfl⟩ := hs
    exact start_loopsOk n nSend nRecv nMax oldTime poller ext
  · intro s e s' hs he
    exact hs.next hk he.1 he.2

/-! ### The cached branch -/

/-- In every state of every run, with clients that join, time out or fail in either set: a
worker whose table is not marked hands to `select` the sets that a rebuild would make, the keys
of its table and the greatest of them. -/
theorem cached_sets {platform : Platform} {s : ServerLoops SelectSets σ} (hk : onNetMsg.KeepsSock)
    (h : (system (.select platform) onNetMsg).Reachable s) {c : CellServer SelectSets}
    (hc : c ∈ s.server.cellServers) (hb : c.clientsChange = false) :
    ∃ cached rebuilt, CellSelectServer.prepareRead s.server.net c = some cached ∧
      CellSelectServer.rebuild s.server.net c = some rebuilt ∧
      cached.poller.fdRead = rebuilt.poller.fdRead ∧
      cached.poller.maxSock = rebuilt.poller.maxSock ∧
      (∀ fd, fd ∈ cached.poller.fdRead ↔ ∃ e ∈ c.clients.entries, e.1 = fd) ∧
      IsGreatest {k | ∃ e ∈ c.clients.entries, e.1 = k} cached.poller.maxSock := by
  have hok : LoopsOk (t := .select platform) s := loopsOk_of_reachable hk h
  obtain ⟨i, hi⟩ := List.getElem?_of_mem hc
  obtain ⟨first, rest, he, hbak, hmax⟩ := hok.sets c hc hb
  have hkey : s.server.net.sockfd? first.2 = some first.1 := hok.keys hi (by simp [he])
  refine ⟨{ c with poller := { c.poller with fdRead := c.poller.fdReadBak } }, _, ?_,
    CellSelectServer.rebuild_eq he hkey, hbak, hmax, ?_, ?_⟩
  · simp [CellSelectServer.prepareRead, hb]
  · intro fd
    dsimp only
    rw [hbak]
    exact CellSelectServer.mem_readSet
  · dsimp only
    rw [hmax]
    exact CellSelectServer.topSock_isGreatest ⟨first, by simp [he], rfl⟩

/-- A select server with one worker. -/
def selecting : ServerLoops SelectSets Unit :=
  ⟨.start 1 8 8 2 (fun _ => 0) ⟨[], [], [], -1⟩ (), [.test]⟩

theorem selecting_reachable (platform : Platform) :
    (system (.select platform) EasyTcpServer.quiet).Reachable selecting :=
  .init ⟨1, 8, 8, 2, fun _ => 0, ⟨[], [], [], -1⟩, (), rfl⟩

/-- The kernel hands over socket 5. -/
def accept5 : LoopEvent SelectAnswer := .accpet 5 (List.replicate 8 0) (List.replicate 8 0)

/-- The client with socket 5 was accepted and taken up. -/
def joined5 : ServerLoops SelectSets Unit :=
  ([accept5, .drain 0 0].foldlM (next (.select .linux) EasyTcpServer.quiet) selecting).getD
    selecting

theorem joined5_reachable :
    (system (.select .linux) EasyTcpServer.quiet).Reachable joined5 := by
  have hl : Legal (.select .linux) selecting accept5 := ⟨List.not_mem_nil, rfl, rfl⟩
  have h₁ := (selecting_reachable .linux).step ⟨hl, rfl⟩
  exact h₁.step (l := LoopEvent.drain 0 0) ⟨show _ = some LoopPc.test from rfl, rfl⟩

/-- `select` finds nothing to do. -/
def idle : SelectAnswer := ⟨.ready [] [], fun _ => none, fun _ => 0⟩

theorem idle_leaves (w : Worker SelectSets) : CellSelectServer.Leaves w idle := by
  intro s x read write _ _ hr
  obtain ⟨rfl, rfl⟩ := SelectResult.ready.inj hr
  simp

/-- After its first poll the table of the worker is not marked any more. -/
theorem cached_sets_idle : ∃ s c cached,
    (system (.select .linux) EasyTcpServer.quiet).Reachable s ∧ c ∈ s.server.cellServers ∧
      CellSelectServer.prepareRead s.server.net c = some cached ∧
      cached.poller.fdRead = [5] ∧
      IsGreatest {k | ∃ e ∈ c.clients.entries, e.1 = k} cached.poller.maxSock := by
  have hk : EasyTcpServer.quiet.KeepsSock := fun _ _ _ => rfl
  have h₁ := joined5_reachable.step (l := LoopEvent.checkTime 0 0)
    ⟨show _ = some LoopPc.checkTime from rfl, rfl⟩
  have h₂ := h₁.step (l := LoopEvent.doNetEvent 0 idle)
    ⟨⟨rfl, fun c _ => idle_leaves _⟩, rfl⟩
  obtain ⟨cached, -, hp, -, -, -, -, hmax⟩ := cached_sets hk h₂ (List.mem_singleton.mpr rfl) rfl
  exact ⟨_, _, cached, h₂, List.mem_singleton.mpr rfl, hp, by cases hp; rfl, hmax⟩

end ServerLoops

end CellNet
