import IocpChat.Proofs.Moves
import IocpChat.Spec.Books

/-! The pools, the table and the counter agree: a Session is open exactly if the
table has it under its id, and in the pool otherwise. -/

namespace IocpChat

open Relation (ReflTransGen)
open Runs (Exec)

variable {env : Env} {C : Server → ℕ → Prop} {cur max : ℕ} {σ σ' : Server}

theorem Server.mem_tabled {s : ℕ} : s ∈ σ.tabled ↔ ∃ k, σ.sessionTable.lookup k = some s := by
  simp only [Server.tabled, List.mem_map, Sigma.exists]
  constructor
  · rintro ⟨k, _, hmem, rfl⟩
    exact ⟨k, AList.mem_lookup_iff.mpr hmem⟩
  · rintro ⟨k, hk⟩
    exact ⟨k, s, AList.mem_lookup_iff.mp hk, rfl⟩

theorem Books.mem_tabled (h : Books max σ) {s : ℕ} : s ∈ σ.tabled ↔ σ.Open s := by
  rw [Server.mem_tabled]
  constructor
  · rintro ⟨k, hk⟩
    exact ((h.table k s).mp hk).1
  · intro ho
    exact ⟨_, (h.table _ s).mpr ⟨ho, rfl⟩⟩

theorem Books.grounded (h : Books max σ) : Grounded σ where
  known _ ht := (h.mem_tabled.mp ht).2
  idGen := Nat.zero_lt_of_lt (h.id_lt 0)
  recvs := h.recvs
  sends := h.sends

theorem books_new (max : ℕ) : Books max (.new max) where
  table k s := by simp [Server.new, Server.Open, Session.new]
  free s := by simp [Server.new, Server.Open, Session.new]
  free_nodup := List.nodup_reverse.mpr List.nodup_range
  open_buf s ho := absurd rfl ho.2
  closed_buf s _ := rfl
  buf_fresh s b hb := by simp [Server.new, Session.new] at hb
  buf_inj s t b hb := by simp [Server.new, Session.new] at hb
  pool_nodup := List.nodup_reverse.mpr List.nodup_range
  pool_lt b hb := by simpa [Server.new, BufferPool.new] using hb
  id_lt s := by simp [Server.new, Session.new]
  used s hs := absurd rfl hs
  count := rfl
  recvs op hop := by simp [Server.new] at hop
  sends op hop := by simp [Server.new] at hop

/-- What the books are about is the same in both states. -/
structure SameBooks (σ σ' : Server) : Prop where
  free : σ'.free = σ.free
  bufferPool : σ'.bufferPool = σ.bufferPool
  table : σ'.sessionTable = σ.sessionTable
  idGen : σ'.sessionIdGen = σ.sessionIdGen
  count : σ'.statCurConn = σ.statCurConn
  id : ∀ t, (σ'.sessions t).id = (σ.sessions t).id
  closing : ∀ t, (σ'.sessions t).closing = (σ.sessions t).closing
  rxBuf : ∀ t, (σ'.sessions t).rxBuf = (σ.sessions t).rxBuf
  recvs : ∀ op ∈ σ'.recvs, (σ.sessions op.sess).id ≠ 0
  sends : ∀ op ∈ σ'.sends, (σ.sessions op.sess).id ≠ 0

theorem SameBooks.open_iff (h : SameBooks σ σ') (s : ℕ) : σ'.Open s ↔ σ.Open s := by
  simp only [Server.Open, h.id, h.closing]

theorem Books.congr (h : Books max σ) (hs : SameBooks σ σ') : Books max σ' where
  table k s := by rw [hs.table, hs.open_iff, hs.id]; exact h.table k s
  free s := by rw [hs.free, hs.open_iff]; exact h.free s
  free_nodup := hs.free ▸ h.free_nodup
  open_buf s ho := by rw [hs.rxBuf]; exact h.open_buf s ((hs.open_iff s).mp ho)
  closed_buf s ho := by rw [hs.rxBuf]; exact h.closed_buf s (mt (hs.open_iff s).mpr ho)
  buf_fresh s b hb := by rw [hs.bufferPool]; exact h.buf_fresh s b (hs.rxBuf s ▸ hb)
  buf_inj s t b hb hb' := h.buf_inj s t b (hs.rxBuf s ▸ hb) (hs.rxBuf t ▸ hb')
  pool_nodup := hs.bufferPool ▸ h.pool_nodup
  pool_lt := hs.bufferPool ▸ h.pool_lt
  id_lt s := by rw [hs.id, hs.idGen]; exact h.id_lt s
  used s hid := h.used s (hs.id s ▸ hid)
  count := by rw [hs.count, hs.table]; exact h.count
  recvs op hop := by rw [hs.id]; exact hs.recvs op hop
  sends op hop := by rw [hs.id]; exact hs.sends op hop

theorem Books.same_set (h : Books max σ) {s : ℕ} {x : Session}
    (hid : x.id = (σ.sessions s).id) (hc : x.closing = (σ.sessions s).closing)
    (hb : x.rxBuf = (σ.sessions s).rxBuf) : SameBooks σ (σ.set s x) where
  free := rfl
  bufferPool := rfl
  table := rfl
  idGen := rfl
  count := rfl
  id t := by rw [Server.sessions_set]; split_ifs with ht <;> simp [ht, hid]
  closing t := by rw [Server.sessions_set]; split_ifs with ht <;> simp [ht, hc]
  rxBuf t := by rw [Server.sessions_set]; split_ifs with ht <;> simp [ht, hb]
  recvs := h.recvs
  sends := h.sends

theorem Books.emit (h : Books max σ) (e : Effect) : Books max (σ.emit e) :=
  h.congr ⟨rfl, rfl, rfl, rfl, rfl, fun _ => rfl, fun _ => rfl, fun _ => rfl, h.recvs, h.sends⟩

/-! ### Closing and connecting a Session -/

/-- Closing an open Session moves it from the table to the pool, and its buffer too. -/
theorem Books.close (h : Books max σ) {s : ℕ} (ho : σ.Open s) : Books max (closeSession s σ) := by
  obtain ⟨b, hb⟩ := Option.ne_none_iff_exists'.mp (h.open_buf s ho)
  have heq : closeSession s σ =
      { σ.set s { σ.sessions s with closing := true, rxBuf := none } with
        closedSocks := σ.closedSocks ++ (σ.sessions s).sock.toList
        bufferPool := σ.bufferPool.release b
        sessionTable := σ.sessionTable.erase (σ.sessions s).id
        statCurConn := σ.statCurConn - 1
        free := s :: σ.free
        trace := σ.trace ++ [.closed s (σ.sessions s).id] } := by
    simp [closeSession, ho.1, hb]
  have hses := sessions_closeSession ho.1
  have hopen := open_closeSession ho.1
  have hbuf (t c : ℕ) : ((closeSession s σ).sessions t).rxBuf = some c ↔
      t ≠ s ∧ (σ.sessions t).rxBuf = some c := by
    rw [hses]
    split_ifs with ht <;> simp [ht]
  have hid (t : ℕ) := closeSession_id s t σ
  have hlookup := (h.table (σ.sessions s).id s).mpr ⟨ho, rfl⟩
  obtain ⟨hlt, hout⟩ := h.buf_fresh s b hb
  exact {
    table := by
      intro k t
      rw [hopen, hid, show (closeSession s σ).sessionTable =
        σ.sessionTable.erase (σ.sessions s).id by rw [heq]]
      by_cases hk : k = (σ.sessions s).id
      · subst hk
        rw [AList.lookup_erase]
        refine ⟨fun hn => by simp at hn, ?_⟩
        rintro ⟨⟨hts, hot⟩, htid⟩
        -- two open Sessions with one id would be one entry of the table
        have := (h.table _ t).mpr ⟨hot, htid⟩
        rw [hlookup, Option.some.injEq] at this
        exact absurd this.symm hts
      · rw [AList.lookup_erase_ne hk, h.table]
        constructor
        · intro hot
          refine ⟨⟨?_, hot.1⟩, hot.2⟩
          rintro rfl
          exact hk hot.2.symm
        · intro hot
          exact ⟨hot.1.2, hot.2⟩
    free := by
      intro t
      rw [show (closeSession s σ).free = s :: σ.free by rw [heq], List.mem_cons, hopen, h.free]
      constructor
      · rintro (rfl | ⟨hlt, hnot⟩)
        · exact ⟨h.used t ho.2, fun hn => hn.1 rfl⟩
        · exact ⟨hlt, fun hn => hnot hn.2⟩
      · rintro ⟨hlt, hnot⟩
        by_cases hts : t = s
        · exact .inl hts
        · exact .inr ⟨hlt, fun hot => hnot ⟨hts, hot⟩⟩
    free_nodup := by
      rw [show (closeSession s σ).free = s :: σ.free by rw [heq], List.nodup_cons]
      exact ⟨fun hs => ((h.free s).mp hs).2 ho, h.free_nodup⟩
    open_buf := by
      intro t hot
      obtain ⟨hts, hot⟩ := (hopen t).mp hot
      rw [hses, if_neg hts]
      exact h.open_buf t hot
    closed_buf := by
      intro t hnot
      rw [hses]
      split_ifs with hts
      · rfl
      · exact h.closed_buf t fun hot => hnot ((hopen t).mpr ⟨hts, hot⟩)
    buf_fresh := by
      intro t c hc
      obtain ⟨hts, hc⟩ := (hbuf t c).mp hc
      obtain ⟨hltc, houtc⟩ := h.buf_fresh t c hc
      rw [show (closeSession s σ).bufferPool = σ.bufferPool.release b by rw [heq]]
      refine ⟨hltc, ?_⟩
      simp only [BufferPool.release, List.mem_cons, not_or]
      refine ⟨?_, houtc⟩
      rintro rfl
      exact hts (h.buf_inj t s c hc hb)
    buf_inj := by
      intro t u c hc hc'
      exact h.buf_inj t u c ((hbuf t c).mp hc).2 ((hbuf u c).mp hc').2
    pool_nodup := by
      rw [show (closeSession s σ).bufferPool = σ.bufferPool.release b by rw [heq]]
      exact List.nodup_cons.mpr ⟨hout, h.pool_nodup⟩
    pool_lt := by
      rw [show (closeSession s σ).bufferPool = σ.bufferPool.release b by rw [heq]]
      intro c hc
      rcases List.mem_cons.mp hc with rfl | hc
      · exact hlt
      · exact h.pool_lt c hc
    id_lt := by
      intro t
      rw [hid, show (closeSession s σ).sessionIdGen = σ.sessionIdGen by rw [heq]; rfl]
      exact h.id_lt t
    used := fun t ht => h.used t (hid t ▸ ht)
    count := by
      have hmem : (σ.sessions s).id ∈ σ.sessionTable.keys :=
        AList.mem_keys.mp (AList.lookup_isSome.mp (by rw [hlookup]; rfl))
      have hpos := List.length_pos_of_mem hmem
      rw [show (closeSession s σ).statCurConn = σ.statCurConn - 1 by rw [heq],
        show (closeSession s σ).sessionTable = σ.sessionTable.erase (σ.sessions s).id by rw [heq],
        AList.keys_erase, List.length_erase_of_mem hmem, h.count]
      omega
    recvs := by
      rw [show (closeSession s σ).recvs = σ.recvs by rw [heq]; rfl]
      intro op hop
      rw [hid]
      exact h.recvs op hop
    sends := by
      rw [show (closeSession s σ).sends = σ.sends by rw [heq]; rfl]
      intro op hop
      rw [hid]
      exact h.sends op hop }

/-- What `Allocate` gives is not in the pool, and nothing that was out of it comes back. -/
theorem BufferPool.allocate_spec {p : BufferPool} (hnodup : p.pool.Nodup)
    (hlt : ∀ b ∈ p.pool, b < p.fresh) :
    p.allocate.1 < p.allocate.2.fresh ∧ p.allocate.1 ∉ p.allocate.2.pool ∧
      p.allocate.2.pool.Nodup ∧ (∀ b ∈ p.allocate.2.pool, b < p.allocate.2.fresh) ∧
      ∀ b, b < p.fresh → b ∉ p.pool →
        b ≠ p.allocate.1 ∧ b < p.allocate.2.fresh ∧ b ∉ p.allocate.2.pool := by
  obtain ⟨pool, fresh⟩ := p
  cases pool with
  | nil =>
    refine ⟨Nat.lt_succ_self fresh, List.not_mem_nil, List.nodup_nil, by simp [allocate], ?_⟩
    exact fun b hb _ => ⟨Nat.ne_of_lt hb, Nat.lt_succ_of_lt hb, List.not_mem_nil⟩
  | cons buf pool =>
    obtain ⟨hnotin, hrest⟩ := List.nodup_cons.mp hnodup
    refine ⟨hlt buf (by simp), hnotin, hrest, fun b hb => hlt b (by simp [show b ∈ pool from hb]),
      fun b hb hout => ?_⟩
    simp only [List.mem_cons, not_or] at hout
    exact ⟨hout.1, hb, hout.2⟩

/-- The Session of a new connection. -/
def Server.connected (σ : Server) (s : ℕ) (sock : Option ℕ) : Session :=
  { σ.sessions s with
    sock, id := σ.sessionIdGen, sending := false, closing := false
    rx := (σ.sessions s).rx.clear.clear, rxBuf := some σ.bufferPool.allocate.1 }

theorem connect_eq (s : ℕ) (free : List ℕ) (sock : Option ℕ) (σ : Server) :
    connect s free sock σ =
      { σ.set s (σ.connected s sock) with
        free
        bufferPool := σ.bufferPool.allocate.2
        sessionIdGen := σ.sessionIdGen + 1
        sessionTable := σ.sessionTable.insert σ.sessionIdGen s
        statCurConn := σ.statCurConn + 1
        trace := σ.trace ++ [.accepted s σ.sessionIdGen] } := by
  simp only [connect, assign, Server.set, Function.update_self, Function.update_idem]
  rfl

theorem sessions_connect (s t : ℕ) (free : List ℕ) (sock : Option ℕ) (σ : Server) :
    (connect s free sock σ).sessions t = if t = s then σ.connected s sock else σ.sessions t := by
  rw [connect_eq]
  exact σ.sessions_set s t _

theorem open_connect (hg : 0 < σ.sessionIdGen) {s : ℕ} {free : List ℕ} {sock : Option ℕ} (t : ℕ) :
    (connect s free sock σ).Open t ↔ t = s ∨ σ.Open t := by
  simp only [Server.Open, sessions_connect]
  split_ifs with ht
  · simp [ht, Server.connected]
    omega
  · simp [ht]

/-- Connecting a Session from the pool moves it and a buffer out of the pools. -/
theorem Books.connects (h : Books max σ) {s : ℕ} {free : List ℕ} (hf : σ.free = s :: free)
    (sock : Option ℕ) : Books max (connect s free sock σ) := by
  have hses (t : ℕ) := sessions_connect s t free sock σ
  have heq := connect_eq s free sock σ
  have hpos : 0 < σ.sessionIdGen := Nat.zero_lt_of_lt (h.id_lt 0)
  obtain ⟨hsmax, hclosed⟩ := (h.free s).mp (by rw [hf]; simp)
  obtain ⟨hsnot, hrest⟩ := List.nodup_cons.mp (hf ▸ h.free_nodup)
  obtain ⟨hblt, hbout, hpnodup, hplt, hkeep⟩ := BufferPool.allocate_spec h.pool_nodup h.pool_lt
  have hopen (t : ℕ) : (connect s free sock σ).Open t ↔ t = s ∨ σ.Open t := open_connect hpos t
  have hfresh : ∀ t, σ.sessionTable.lookup σ.sessionIdGen ≠ some t := by
    intro t ht
    have hlt := h.id_lt t
    rw [((h.table _ t).mp ht).2] at hlt
    exact absurd hlt (lt_irrefl _)
  have hsome (t c : ℕ) (hts : t ≠ s) (hc : ((connect s free sock σ).sessions t).rxBuf = some c) :
      (σ.sessions t).rxBuf = some c := by rwa [hses, if_neg hts] at hc
  have hself (c : ℕ) (hc : ((connect s free sock σ).sessions s).rxBuf = some c) :
      σ.bufferPool.allocate.1 = c := by
    rw [hses, if_pos rfl] at hc
    exact Option.some.inj hc
  have hold (t : ℕ) (ht : (σ.sessions t).id ≠ 0) :
      ((connect s free sock σ).sessions t).id ≠ 0 := by
    rw [hses]
    split_ifs
    · exact hpos.ne'
    · exact ht
  exact {
    table := by
      intro k t
      rw [hopen, hses, show (connect s free sock σ).sessionTable =
        σ.sessionTable.insert σ.sessionIdGen s by rw [heq]]
      by_cases hk : k = σ.sessionIdGen
      · subst hk
        rw [AList.lookup_insert, Option.some.injEq]
        constructor
        · rintro rfl
          exact ⟨.inl rfl, by rw [if_pos rfl]; rfl⟩
        · intro hto
          by_contra hst
          have htid := hto.2
          rw [if_neg (Ne.symm hst)] at htid
          have hlt := h.id_lt t
          omega
      · rw [AList.lookup_insert_ne hk, h.table]
        constructor
        · intro hot
          refine ⟨.inr hot.1, ?_⟩
          rw [if_neg, hot.2]
          rintro rfl
          exact hclosed hot.1
        · intro hor
          have htid := hor.2
          split_ifs at htid with hts
          · exact absurd htid.symm hk
          · exact ⟨hor.1.resolve_left hts, htid⟩
    free := by
      intro t
      rw [show (connect s free sock σ).free = free by rw [heq], hopen]
      have ht := h.free t
      rw [hf, List.mem_cons] at ht
      constructor
      · intro hmem
        obtain ⟨hlt, hnot⟩ := ht.mp (.inr hmem)
        refine ⟨hlt, ?_⟩
        rintro (rfl | hot)
        · exact hsnot hmem
        · exact hnot hot
      · rintro ⟨hlt, hnot⟩
        rcases ht.mpr ⟨hlt, fun hot => hnot (.inr hot)⟩ with rfl | hmem
        · exact absurd (.inl rfl) hnot
        · exact hmem
    free_nodup := by rw [heq]; exact hrest
    open_buf := by
      intro t hot
      rw [hses]
      split_ifs with hts
      · simp [Server.connected]
      · exact h.open_buf t (((hopen t).mp hot).resolve_left hts)
    closed_buf := by
      intro t hnot
      rw [hopen, not_or] at hnot
      rw [hses, if_neg hnot.1]
      exact h.closed_buf t hnot.2
    buf_fresh := by
      intro t c hc
      rw [show (connect s free sock σ).bufferPool = σ.bufferPool.allocate.2 by rw [heq]]
      by_cases hts : t = s
      · subst hts
        rw [← hself c hc]
        exact ⟨hblt, hbout⟩
      · obtain ⟨hclt, hcout⟩ := h.buf_fresh t c (hsome t c hts hc)
        exact (hkeep c hclt hcout).2
    buf_inj := by
      -- a buffer that some Session has is not the one that was allocated
      have hne (t c : ℕ) (hts : t ≠ s)
          (hc : ((connect s free sock σ).sessions t).rxBuf = some c) :
          c ≠ σ.bufferPool.allocate.1 := by
        obtain ⟨hclt, hcout⟩ := h.buf_fresh t c (hsome t c hts hc)
        exact (hkeep c hclt hcout).1
      intro t u c hc hc'
      by_cases hts : t = s <;> by_cases hus : u = s
      · rw [hts, hus]
      · exact absurd (hself c (hts ▸ hc)).symm (hne u c hus hc')
      · exact absurd (hself c (hus ▸ hc')).symm (hne t c hts hc)
      · exact h.buf_inj t u c (hsome t c hts hc) (hsome u c hus hc')
    pool_nodup := by rw [heq]; exact hpnodup
    pool_lt := by rw [heq]; exact hplt
    id_lt := by
      intro t
      rw [show (connect s free sock σ).sessionIdGen = σ.sessionIdGen + 1 by rw [heq], hses]
      split_ifs
      · exact Nat.lt_succ_self _
      · exact Nat.lt_succ_of_lt (h.id_lt t)
    used := by
      intro t ht
      by_cases hts : t = s
      · exact hts ▸ hsmax
      · rw [hses, if_neg hts] at ht
        exact h.used t ht
    count := by
      have hnew : σ.sessionIdGen ∉ σ.sessionTable := by
        rw [← AList.lookup_eq_none, Option.eq_none_iff_forall_ne_some]
        exact hfresh
      rw [show (connect s free sock σ).statCurConn = σ.statCurConn + 1 by rw [heq],
        show (connect s free sock σ).sessionTable = σ.sessionTable.insert σ.sessionIdGen s
          by rw [heq], AList.keys_insert, List.length_cons, List.erase_of_not_mem, h.count]
      · omega
      · rwa [← AList.mem_keys]
    recvs := by
      rw [show (connect s free sock σ).recvs = σ.recvs by rw [heq]; rfl]
      exact fun op hop => hold op.sess (h.recvs op hop)
    sends := by
      rw [show (connect s free sock σ).sends = σ.sends by rw [heq]; rfl]
      exact fun op hop => hold op.sess (h.sends op hop) }

/-! ### Every move keeps the books -/

theorem Books.setQuiet (h : Books max σ) {s : ℕ} {x : Session}
    (hid : x.id = (σ.sessions s).id) (hc : x.closing = (σ.sessions s).closing)
    (hb : x.rxBuf = (σ.sessions s).rxBuf) : Books max (σ.set s x) :=
  h.congr (h.same_set hid hc hb)

theorem Books.handed (h : Books max σ) (t : ℕ) (ok : Bool) : Books max (σ.handed t ok) := by
  have hpop : Books max (σ.popSend t) := h.setQuiet rfl rfl rfl
  exact hpop.emit _

theorem Books.act {N : Effect → Prop} (h : Books max σ) {c : Option ℕ} (hact : Act env c N σ σ') :
    Books max σ' := by
  cases hact with
  | note e he => exact h.emit e
  | push t data ho => exact h.setQuiet rfl rfl rfl
  | claim t ho => exact h.setQuiet rfl rfl rfl
  | idle t ho hq => exact h.setQuiet rfl rfl rfl
  | hand t ho =>
    refine (h.handed t true).congr ⟨rfl, rfl, rfl, rfl, rfl, fun _ => rfl, fun _ => rfl,
      fun _ => rfl, (h.handed t true).recvs, fun op hop => ?_⟩
    rcases List.mem_append.mp hop with hop | hop
    · exact (h.handed t true).sends op hop
    · rw [List.mem_singleton.mp hop]
      exact (ho.handed true).2
  | fail t ho hf => exact (h.handed t false).close (ho.handed false)
  | close s hs ho => exact h.close ho

theorem Books.acts {N : Effect → Prop} (h : Books max σ) {c : Option ℕ}
    (hacts : Acts env c N σ σ') : Books max σ' := by
  induction hacts with
  | refl => exact h
  | tail _ hact ih => exact ih.act hact

theorem Books.side (h : Books max σ) (acc : AcceptSide) (socks : List ℕ) :
    Books max (σ.side acc socks) :=
  h.congr ⟨rfl, rfl, rfl, rfl, rfl, fun _ => rfl, fun _ => rfl, fun _ => rfl, h.recvs, h.sends⟩

theorem Books.dequeueRecv (h : Books max σ) (i : ℕ) : Books max (σ.dequeueRecv i) :=
  h.congr ⟨rfl, rfl, rfl, rfl, rfl, fun _ => rfl, fun _ => rfl, fun _ => rfl,
    fun op hop => h.recvs op (List.mem_of_mem_eraseIdx hop), h.sends⟩

theorem Books.dequeueSend (h : Books max σ) (i : ℕ) : Books max (σ.dequeueSend i) :=
  h.congr ⟨rfl, rfl, rfl, rfl, rfl, fun _ => rfl, fun _ => rfl, fun _ => rfl, h.recvs,
    fun op hop => h.sends op (List.mem_of_mem_eraseIdx hop)⟩

theorem Books.move (h : Books max σ) (hm : Move env C σ σ') : Books max σ' := by
  cases hm with
  | work hw =>
    cases hw with
    | act hact => exact h.act hact
    | ring r => exact h.setQuiet rfl rfl rfl
    | mark e he => exact h.emit e
  | recvPosted _ s ho =>
    refine h.congr ⟨rfl, rfl, rfl, rfl, rfl, fun _ => rfl, fun _ => rfl, fun _ => rfl,
      fun op hop => ?_, h.sends⟩
    rcases List.mem_append.mp hop with hop | hop
    · exact h.recvs op hop
    · rw [List.mem_singleton.mp hop]
      exact ho.2
  | recvRefused _ s ho => exact (h.emit _).close ho
  | side _ acc socks => exact h.side acc socks
  | connect _ s free sock hf hC => exact h.connects hf sock
  | fill _ i op data hop hd hlen =>
    refine h.congr ⟨rfl, rfl, rfl, rfl, rfl, fun _ => rfl, fun _ => rfl, fun _ => rfl,
      fun op' hop' => ?_, h.sends⟩
    rcases List.mem_or_eq_of_mem_set hop' with hop' | rfl
    · exact h.recvs op' hop'
    · exact h.recvs op (List.mem_of_getElem? hop)
  | dequeueRecv _ i => exact h.dequeueRecv i
  | dequeueSend _ i => exact h.dequeueSend i

theorem Books.moves (h : Books max σ) (hm : Moves env C σ σ') : Books max σ' := by
  induction hm with
  | refl => exact h
  | tail _ hmove ih => exact ih.move hmove

theorem Books.step (h : Books max σ) {e : Event} (hstep : step env σ e = some σ') :
    Books max σ' :=
  h.moves (step_moves (C := fun _ _ => True) h.grounded (acceptsFrom_of fun _ _ _ => trivial) hstep)

theorem start_side {n fuel : ℕ} (h : start env max n fuel = some σ) :
    ∃ acc socks, σ = (Server.new max).side acc socks := by
  have hgen (n : ℕ) (τ : Server) (h : postAccepts env fuel n τ = some σ) :
      ∃ acc socks, σ = τ.side acc socks := by
    induction n generalizing τ with
    | zero =>
      simp only [postAccepts, Option.some.injEq] at h
      exact ⟨τ.accepts, τ.closedSocks, h.symm⟩
    | succ n ih =>
      obtain ⟨υ, hυ, hrest⟩ := Option.bind_eq_some_iff.mp h
      obtain ⟨acc, socks, rfl⟩ := postAccept_side hυ
      obtain ⟨acc', socks', rfl⟩ := ih _ hrest
      exact ⟨acc', socks', rfl⟩
  exact hgen n _ h

theorem books_start {n fuel : ℕ} (h : start env max n fuel = some σ) : Books max σ := by
  obtain ⟨acc, socks, rfl⟩ := start_side h
  exact (books_new max).side acc socks

/-- The books are right in every state a run leads to. -/
theorem books_run {n fuel : ℕ} {σ₀ : Server} {ok : Server → Event → Prop} {es : List Event}
    (hstart : start env max n fuel = some σ₀) (h : Exec (IocpChat.step env) ok σ₀ es σ) :
    Books max σ :=
  h.invariant (P := Books max) (fun _ _ _ hb _ hstep => hb.step hstep) (books_start hstart)

/-- What the started server has and every allowed step preserves, given the books,
holds wherever a run leads. -/
theorem invariant_run {n fuel : ℕ} {σ₀ : Server} {ok : Server → Event → Prop} {es : List Event}
    {P : Server → Prop} (hstart : start env max n fuel = some σ₀)
    (hnew : ∀ acc socks, P ((Server.new max).side acc socks))
    (hstep : ∀ σ e σ', Books max σ → P σ → ok σ e → IocpChat.step env σ e = some σ' → P σ')
    (h : Exec (IocpChat.step env) ok σ₀ es σ) : P σ := by
  have hinit : Books max σ₀ ∧ P σ₀ := by
    refine ⟨books_start hstart, ?_⟩
    obtain ⟨acc, socks, rfl⟩ := start_side hstart
    exact hnew acc socks
  have hrun := h.invariant (P := fun σ => Books max σ ∧ P σ)
    (fun σ e σ' ⟨hb, hp⟩ hok he => ⟨hb.step he, hstep σ e σ' hb hp hok he⟩) hinit
  exact hrun.2

/-! ### The pools and the table split the Sessions -/

theorem Books.tabled_nodup (h : Books max σ) : σ.tabled.Nodup := by
  have hentries : σ.sessionTable.entries.Nodup :=
    List.Nodup.of_map Sigma.fst σ.sessionTable.keys_nodup
  refine List.Nodup.map_on (fun x hx y hy hxy => ?_) hentries
  have hx' := ((h.table x.1 x.2).mp (AList.mem_lookup_iff.mpr hx)).2
  have hy' := ((h.table y.1 y.2).mp (AList.mem_lookup_iff.mpr hy)).2
  obtain ⟨k, s⟩ := x
  obtain ⟨k', s'⟩ := y
  simp only at hxy hx' hy'
  rw [← hx', ← hy', hxy]

theorem Books.split (h : Books max σ) : (σ.free ++ σ.tabled).Perm (List.range max) := by
  refine (List.perm_ext_iff_of_nodup ?_ List.nodup_range).mpr fun s => ?_
  · refine List.nodup_append.mpr ⟨h.free_nodup, h.tabled_nodup, fun s hs t ht hst => ?_⟩
    exact ((h.free s).mp hs).2 (h.mem_tabled.mp (hst ▸ ht))
  · rw [List.mem_append, h.free, h.mem_tabled, List.mem_range]
    constructor
    · rintro (hs | ho)
      · exact hs.1
      · exact h.used s ho.2
    · intro hs
      by_cases ho : σ.Open s
      · exact .inr ho
      · exact .inl ⟨hs, ho⟩

theorem Books.bufs_nodup (h : Books max σ) :
    (σ.tabled.map fun s => (σ.sessions s).rxBuf).Nodup := by
  refine List.Nodup.map_on (fun s hs t _ hst => ?_) h.tabled_nodup
  obtain ⟨b, hb⟩ := Option.ne_none_iff_exists'.mp (h.open_buf s (h.mem_tabled.mp hs))
  exact h.buf_inj s t b hb (hst ▸ hb)

/-- In every state between handlers the pools, the table and the counter agree. -/
theorem bookkeeping_conserved {maxSessions n fuel : ℕ} {σ₀ σ : Server} {es : List Event}
    (hstart : start env maxSessions n fuel = some σ₀)
    (h : Exec (step env) (fun _ _ => True) σ₀ es σ) :
    (∀ s < maxSessions,
      (σ.free.count s = 1 ∧ ∀ k, σ.sessionTable.lookup k ≠ some s) ∨
        (s ∉ σ.free ∧ ∀ k, σ.sessionTable.lookup k = some s ↔ k = (σ.sessions s).id)) ∧
      σ.free.length + σ.tabled.length = maxSessions ∧
      σ.statCurConn = σ.tabled.length ∧ 0 ≤ σ.statCurConn ∧
      (∀ s ∈ σ.tabled, s < maxSessions ∧ (σ.sessions s).closing = false ∧
        (σ.sessions s).rxBuf ≠ none) ∧
      (σ.tabled.map fun s => (σ.sessions s).rxBuf).Nodup ∧
      (∀ s ∈ σ.tabled, ∀ b, (σ.sessions s).rxBuf = some b → b ∉ σ.bufferPool.pool) ∧
      σ.bufferPool.pool.Nodup := by
  have hb := books_run hstart h
  have hsize : σ.sessionTable.keys.length = σ.tabled.length := by
    rw [AList.keys, List.keys, List.length_map, Server.tabled, List.length_map]
  have hlen := hb.split.length_eq
  rw [List.length_append, List.length_range] at hlen
  have hcount := hb.count
  rw [hsize] at hcount
  refine ⟨fun s hs => ?_, hlen, hcount, by omega, fun s hs => ?_, hb.bufs_nodup,
    fun s _ b hbuf => (hb.buf_fresh s b hbuf).2, hb.pool_nodup⟩
  · by_cases ho : σ.Open s
    · refine .inr ⟨fun hmem => ((hb.free s).mp hmem).2 ho, fun k => ?_⟩
      rw [hb.table]
      exact ⟨fun hk => hk.2.symm, fun hk => ⟨ho, hk.symm⟩⟩
    · refine .inl ⟨List.count_eq_one_of_mem hb.free_nodup ((hb.free s).mpr ⟨hs, ho⟩), ?_⟩
      exact fun k hk => ho ((hb.table k s).mp hk).1
  · have ho := hb.mem_tabled.mp hs
    exact ⟨hb.used s ho.2, ho.1, hb.open_buf s ho⟩

/-- Two clients connect, and the first one sends a packet and hangs up. -/
def hangUp : List Event :=
  [.accept 0 1, .accept 0 1, .fill 0 [4, 0, 13, 0], .recv 0, .fill 1 [], .recv 1]

theorem bookkeeping_hangUp :
    ∃ σ : Server, σ.tabled = [0] ∧ σ.statCurConn = σ.tabled.length ∧
      σ.free.length + σ.tabled.length = 2 := by
  obtain ⟨σ₀, σ, hstart, hrun, htabled⟩ : ∃ σ₀ σ, start .calm 2 2 1 = some σ₀ ∧
      Exec (step .calm) (fun _ _ => True) σ₀ hangUp σ ∧ σ.tabled = [0] :=
    exists_run (by decide +kernel)
  obtain ⟨-, hsum, hcount, -⟩ := bookkeeping_conserved hstart hrun
  exact ⟨σ, htabled, hcount, hsum⟩

end IocpChat
