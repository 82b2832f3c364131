import IocpChat.Lib.Custody
import IocpChat.Lib.Tally
import IocpChat.Proofs.Bookkeeping
import IocpChat.Spec.Workers

/-! The pools, the table and the counter while any number of workers accept and close at once. A
Session is in the pool, open, or in the hands of one worker, and where it is says what the pools
and the table have of it. -/

namespace IocpChat.Workers

open Runs (Exec)
open Custody (Agrees)
open Threads

variable {n cap : ℕ} {σ τ : Server} {s : ℕ} {w : Fin n}

abbrev Place (n : ℕ) := Custody.Place (Fin n) Worker Shelf

def Worker.tabled : Worker → Bool
  | .closeSock _ | .giveBuf _ | .erase _ => true
  | _ => false

def Worker.buffered : Worker → Bool
  | .insert _ | .closeSock _ | .giveBuf _ => true
  | _ => false

/-- The Session has the id of a connection. -/
def Worker.named : Worker → Bool
  | .idle | .count | .number .. => false
  | _ => true

def isPooled : Place n → Bool
  | .on .pool => true
  | _ => false

def isClosing : Place n → Bool
  | .on .pool => true
  | .on .open => false
  | .held _ p => p.closing

def isTabled : Place n → Bool
  | .on .pool => false
  | .on .open => true
  | .held _ p => p.tabled

def isBuffered : Place n → Bool
  | .on .pool => false
  | .on .open => true
  | .held _ p => p.buffered

def isNamed : Place n → Bool
  | .on .pool => false
  | .on .open => true
  | .held _ p => p.named

/-- The Session is a connection that has been accepted and is not closed. -/
def isLive : Place n → Bool
  | .on .pool => false
  | .on .open => true
  | .held _ p => p.closing

/-- The Session is a connection that has yet to be entered into the table. -/
def isUntold : Place n → Bool
  | .on _ => false
  | .held _ p => p.named && !p.closing

theorem isPooled_iff {p : Place n} : isPooled p = true ↔ p = .on .pool := by
  cases p with
  | on shelf => cases shelf <;> simp [isPooled]
  | held w p => simp [isPooled]

/-- What the pool of Sessions, the table and the Sessions say. -/
structure Kept (cap : ℕ) (place : ℕ → Place n) (σ : Server) : Prop where
  free : ∀ s, s ∈ σ.free ↔ s < cap ∧ isPooled (place s) = true
  free_nodup : σ.free.Nodup
  used : ∀ s, isPooled (place s) = false → s < cap
  known : ∀ s, (σ.sessions s).id ≠ 0 → s < cap
  table : ∀ k s, σ.sessionTable.lookup k = some s ↔
    (σ.sessions s).id = k ∧ isTabled (place s) = true
  closing : ∀ s, (σ.sessions s).closing = isClosing (place s) ∨
    (σ.sessions s).id = 0 ∧ isPooled (place s) = true
  named : ∀ s, isNamed (place s) = true → (σ.sessions s).id ≠ 0
  id_lt : ∀ s, (σ.sessions s).id < σ.sessionIdGen
  id_inj : ∀ s t, (σ.sessions s).id ≠ 0 → (σ.sessions s).id = (σ.sessions t).id → s = t

/-- So many Sessions have a buffer. -/
def buffers (cap : ℕ) (place : ℕ → Place n) : ℕ :=
  ∑ s ∈ Finset.range cap, (isBuffered (place s)).toNat

/-- What the pool of buffers says. -/
structure Blocks (cap : ℕ) (place : ℕ → Place n) (σ : Server) : Prop where
  buffered : ∀ s, (σ.sessions s).rxBuf.isSome = isBuffered (place s)
  out : ∀ s b, (σ.sessions s).rxBuf = some b → b < σ.bufferPool.fresh ∧ b ∉ σ.bufferPool.pool
  inj : ∀ s t b, (σ.sessions s).rxBuf = some b → (σ.sessions t).rxBuf = some b → s = t
  nodup : σ.bufferPool.pool.Nodup
  lt : ∀ b ∈ σ.bufferPool.pool, b < σ.bufferPool.fresh
  cover : ∀ b < σ.bufferPool.fresh, b ∉ σ.bufferPool.pool → ∃ s, (σ.sessions s).rxBuf = some b
  all : σ.bufferPool.fresh = σ.bufferPool.pool.length + buffers cap place
  bound : σ.bufferPool.fresh ≤ max 128 cap

/-- What the record says. -/
structure Recorded (place : ℕ → Place n) (σ : Server) : Prop where
  nodup : (accepts σ.trace).Nodup
  lt : ∀ c ∈ accepts σ.trace, c.2 < σ.sessionIdGen
  told : ∀ s, isUntold (place s) = true → (s, (σ.sessions s).id) ∉ accepts σ.trace
  live : ∀ s, isLive (place s) = true → (s, (σ.sessions s).id) ∈ accepts σ.trace
  closed_nodup : (closes σ.trace).Nodup
  closed : ∀ s k, (s, k) ∈ closes σ.trace ↔
    (s, k) ∈ accepts σ.trace ∧ ¬ ((σ.sessions s).id = k ∧ isLive (place s) = true)

/-- Nothing changes for anyone if a Session moves to a place where it looks the same. -/
theorem update_same {β : Type*} {place : ℕ → Place n} {f : Place n → β} {q : Place n}
    (h : f q = f (place s)) (t : ℕ) : f (Function.update place s q t) = f (place t) := by
  by_cases ht : t = s
  · rw [ht, Function.update_self, h]
  · rw [Function.update_of_ne ht]

theorem Kept.congr {place place' : ℕ → Place n} (h : Kept cap place σ)
    (hp : ∀ s, isPooled (place' s) = isPooled (place s))
    (ht : ∀ s, isTabled (place' s) = isTabled (place s))
    (hc : ∀ s, isClosing (place' s) = isClosing (place s))
    (hn : ∀ s, isNamed (place' s) = isNamed (place s)) (hfree : τ.free = σ.free)
    (htable : τ.sessionTable = σ.sessionTable) (hgen : τ.sessionIdGen = σ.sessionIdGen)
    (hid : ∀ s, (τ.sessions s).id = (σ.sessions s).id)
    (hclosing : ∀ s, (τ.sessions s).closing = (σ.sessions s).closing) : Kept cap place' τ where
  free s := by rw [hfree, hp]; exact h.free s
  free_nodup := hfree ▸ h.free_nodup
  used s hs := h.used s (hp s ▸ hs)
  known s hs := h.known s (hid s ▸ hs)
  table k s := by rw [htable, hid, ht]; exact h.table k s
  closing s := by rw [hclosing, hid, hp, hc]; exact h.closing s
  named s hs := by rw [hid]; exact h.named s (hn s ▸ hs)
  id_lt s := by rw [hid, hgen]; exact h.id_lt s
  id_inj s t hs he := h.id_inj s t (hid s ▸ hs) (by rw [← hid s, ← hid t, he])

theorem Blocks.congr {place place' : ℕ → Place n} (h : Blocks cap place σ)
    (hb : ∀ s, isBuffered (place' s) = isBuffered (place s)) (hpool : τ.bufferPool = σ.bufferPool)
    (hbuf : ∀ s, (τ.sessions s).rxBuf = (σ.sessions s).rxBuf) : Blocks cap place' τ where
  buffered s := by rw [hbuf, hb]; exact h.buffered s
  out s b hs := by rw [hpool]; exact h.out s b (hbuf s ▸ hs)
  inj s t b hs ht := h.inj s t b (hbuf s ▸ hs) (hbuf t ▸ ht)
  nodup := hpool ▸ h.nodup
  lt := hpool ▸ h.lt
  cover b hlt hnot := by
    rw [hpool] at hlt hnot
    obtain ⟨s, hs⟩ := h.cover b hlt hnot
    exact ⟨s, (hbuf s).trans hs⟩
  all := by
    rw [hpool, h.all]
    simp only [buffers, hb]
  bound := hpool ▸ h.bound

theorem Recorded.congr {place place' : ℕ → Place n} (h : Recorded place σ)
    (hu : ∀ s, isUntold (place' s) = isUntold (place s))
    (hl : ∀ s, isLive (place' s) = isLive (place s)) (htrace : τ.trace = σ.trace)
    (hgen : τ.sessionIdGen = σ.sessionIdGen)
    (hid : ∀ s, (τ.sessions s).id = (σ.sessions s).id) : Recorded place' τ where
  nodup := htrace ▸ h.nodup
  lt := by rw [htrace, hgen]; exact h.lt
  told s hs := by rw [htrace, hid]; exact h.told s (hu s ▸ hs)
  live s hs := by rw [htrace, hid]; exact h.live s (hl s ▸ hs)
  closed_nodup := htrace ▸ h.closed_nodup
  closed s k := by rw [htrace, hid, hl]; exact h.closed s k

/-! ### What one step does to the books -/

variable {place : ℕ → Place n}

/-- One Session moves; the others, and what the pool and the table have of them, stay. -/
theorem Kept.change (h : Kept cap place σ) {q : Place n} (hlt : s < cap)
    (hses : ∀ t, t ≠ s → τ.sessions t = σ.sessions t)
    (hfree : s ∈ τ.free ↔ isPooled q = true) (hfrees : ∀ t, t ≠ s → (t ∈ τ.free ↔ t ∈ σ.free))
    (hnodup : τ.free.Nodup)
    (htable : ∀ k, τ.sessionTable.lookup k = some s ↔ (τ.sessions s).id = k ∧ isTabled q = true)
    (htables : ∀ t, t ≠ s → ∀ k,
      τ.sessionTable.lookup k = some t ↔ σ.sessionTable.lookup k = some t)
    (hclosing : (τ.sessions s).closing = isClosing q)
    (hnamed : isNamed q = true → (τ.sessions s).id ≠ 0)
    (hid : (τ.sessions s).id = (σ.sessions s).id ∧ τ.sessionIdGen = σ.sessionIdGen ∨
      (τ.sessions s).id = σ.sessionIdGen ∧ τ.sessionIdGen = σ.sessionIdGen + 1) :
    Kept cap (Function.update place s q) τ where
  free t := by
    by_cases ht : t = s
    · rw [ht, Function.update_self, hfree]
      exact (and_iff_right hlt).symm
    · rw [Function.update_of_ne ht, hfrees t ht]
      exact h.free t
  free_nodup := hnodup
  used t hp := by
    by_cases ht : t = s
    · rw [ht]
      exact hlt
    · rw [Function.update_of_ne ht] at hp
      exact h.used t hp
  known t ht := by
    by_cases hts : t = s
    · rw [hts]
      exact hlt
    · rw [hses t hts] at ht
      exact h.known t ht
  table k t := by
    by_cases ht : t = s
    · rw [ht, Function.update_self]
      exact htable k
    · rw [Function.update_of_ne ht, htables t ht, hses t ht]
      exact h.table k t
  closing t := by
    by_cases ht : t = s
    · rw [ht, Function.update_self]
      exact .inl hclosing
    · rw [Function.update_of_ne ht, hses t ht]
      exact h.closing t
  named t hp := by
    by_cases ht : t = s
    · rw [ht, Function.update_self] at hp
      rw [ht]
      exact hnamed hp
    · rw [Function.update_of_ne ht] at hp
      rw [hses t ht]
      exact h.named t hp
  id_lt t := by
    have hold := h.id_lt t
    by_cases ht : t = s
    · subst ht
      omega
    · rw [hses t ht]
      omega
  id_inj t u hne he := by
    by_cases ht : t = s <;> by_cases hu : u = s
    · rw [ht, hu]
    · rw [ht, hses u hu] at he
      rw [ht] at hne
      rcases hid with ⟨hid, -⟩ | ⟨hid, -⟩
      · rw [ht]
        exact h.id_inj s u (hid ▸ hne) (hid ▸ he)
      · exact absurd (he.symm.trans hid) (h.id_lt u).ne
    · rw [hu, hses t ht] at he
      rw [hses t ht] at hne
      rcases hid with ⟨hid, -⟩ | ⟨hid, -⟩
      · rw [hu]
        exact h.id_inj t s hne (he.trans hid)
      · exact absurd (he.trans hid) (h.id_lt t).ne
    · rw [hses t ht, hses u hu] at he
      rw [hses t ht] at hne
      exact h.id_inj t u hne he

theorem Kept.acquire (h : Kept cap place σ) {free : List ℕ} (hf : σ.free = s :: free)
    (acceptSock : Option ℕ) : Kept cap (Function.update place s (.held w (.number s acceptSock)))
      { σ.set s { σ.sessions s with rx := (σ.sessions s).rx.clear, closing := false } with free } := by
  obtain ⟨hlt, hpool⟩ := (h.free s).mp (by rw [hf]; exact List.mem_cons_self ..)
  obtain ⟨hnot, hnodup⟩ := List.nodup_cons.mp (hf ▸ h.free_nodup)
  have htabled : isTabled (place s) = false := by rw [isPooled_iff.mp hpool]; rfl
  refine h.change hlt (fun t ht => Function.update_of_ne ht ..) (iff_of_false hnot nofun) ?_ hnodup
    ?_ (fun t _ k => Iff.rfl) ?_ nofun (.inl ⟨?_, rfl⟩)
  · intro t ht
    rw [hf, List.mem_cons]
    exact (or_iff_right ht).symm
  · intro k
    refine iff_of_false ?_ nofun
    intro hk
    rw [((h.table k s).mp hk).2] at htabled
    contradiction
  · rw [Server.sessions_set, if_pos rfl]
    rfl
  · rw [Server.sessions_set, if_pos rfl]

theorem Kept.not_free (h : Kept cap place σ) (hp : isPooled (place s) = false) : s ∉ σ.free := by
  intro hs
  rw [((h.free s).mp hs).2] at hp
  contradiction

theorem Kept.not_tabled (h : Kept cap place σ) (ht : isTabled (place s) = false) (k : ℕ) :
    ¬ σ.sessionTable.lookup k = some s := by
  intro hk
  rw [((h.table k s).mp hk).2] at ht
  contradiction

theorem Kept.closing_eq (h : Kept cap place σ) (hp : isPooled (place s) = false) :
    (σ.sessions s).closing = isClosing (place s) := by
  refine (h.closing s).resolve_right ?_
  rintro ⟨-, hpool⟩
  rw [hpool] at hp
  contradiction

theorem Kept.number (h : Kept cap place σ) {acceptSock : Option ℕ}
    (hp : place s = .held w (.number s acceptSock)) :
    Kept cap (Function.update place s (.held w (.sending s))) (σ.number s acceptSock) := by
  have hpool : isPooled (place s) = false := by rw [hp]; rfl
  have hself : (σ.number s acceptSock).sessions s =
      { σ.sessions s with sock := acceptSock, id := σ.sessionIdGen } := Function.update_self ..
  refine h.change (h.used s hpool) (fun t ht => Function.update_of_ne ht ..)
    (iff_of_false (h.not_free hpool) nofun) (fun _ _ => Iff.rfl) h.free_nodup
    (fun k => iff_of_false (h.not_tabled (by rw [hp]; rfl) k) nofun) (fun t _ k => Iff.rfl) ?_ ?_
    (.inr ⟨by rw [hself], rfl⟩)
  · rw [hself]
    refine (h.closing_eq hpool).trans ?_
    rw [hp]
    rfl
  · intro _
    rw [hself]
    exact (Nat.zero_lt_of_lt (h.id_lt s)).ne'

/-- No other Session is in the table under the id of a Session that is about to be entered. -/
theorem Kept.fresh (h : Kept cap place σ) (hp : place s = .held w (.insert s)) (t : ℕ) :
    ¬ σ.sessionTable.lookup (σ.sessions s).id = some t := by
  intro ht
  obtain ⟨hid, htabled⟩ := (h.table _ t).mp ht
  obtain rfl := h.id_inj s t (h.named s (by rw [hp]; rfl)) hid.symm
  rw [hp] at htabled
  contradiction

theorem Kept.insert (h : Kept cap place σ) (hp : place s = .held w (.insert s)) :
    Kept cap (Function.update place s (.on .open)) (σ.insertEntry s) := by
  have hpool : isPooled (place s) = false := by rw [hp]; rfl
  have hnamed := h.named s (by rw [hp]; rfl)
  refine h.change (h.used s hpool) (fun t _ => rfl) (iff_of_false (h.not_free hpool) nofun)
    (fun _ _ => Iff.rfl) h.free_nodup ?_ ?_ ?_ (fun _ => hnamed) (.inl ⟨rfl, rfl⟩)
  · intro k
    change (σ.sessionTable.insert (σ.sessions s).id s).lookup k = some s ↔ _
    by_cases hk : k = (σ.sessions s).id
    · rw [hk, AList.lookup_insert]
      exact iff_of_true rfl ⟨rfl, rfl⟩
    · rw [AList.lookup_insert_ne hk]
      exact iff_of_false (h.not_tabled (by rw [hp]; rfl) k) fun hid => hk hid.1.symm
  · intro t ht k
    change (σ.sessionTable.insert (σ.sessions s).id s).lookup k = some t ↔ _
    by_cases hk : k = (σ.sessions s).id
    · rw [hk, AList.lookup_insert, Option.some.injEq]
      exact iff_of_false (Ne.symm ht) (h.fresh hp t)
    · rw [AList.lookup_insert_ne hk]
  · refine (h.closing_eq hpool).trans ?_
    rw [hp]
    rfl

theorem Kept.length_insert (h : Kept cap place σ) (hp : place s = .held w (.insert s)) :
    (σ.insertEntry s).sessionTable.keys.length = σ.sessionTable.keys.length + 1 := by
  have hnot : (σ.sessions s).id ∉ σ.sessionTable.keys := by
    intro hmem
    obtain ⟨t, ht⟩ := Option.isSome_iff_exists.mp (AList.lookup_isSome.mpr (AList.mem_keys.mpr hmem))
    exact h.fresh hp t ht
  change (σ.sessionTable.insert (σ.sessions s).id s).keys.length = _
  rw [AList.keys_insert, List.erase_of_not_mem hnot, List.length_cons]

theorem Kept.flag (h : Kept cap place σ) (hp : place s = .on .open) :
    Kept cap (Function.update place s (.held w (.closeSock s))) (σ.flag s) := by
  have hpool : isPooled (place s) = false := by rw [hp]; rfl
  have hself : (σ.flag s).sessions s = { σ.sessions s with closing := true } :=
    Function.update_self ..
  refine h.change (h.used s hpool) (fun t ht => Function.update_of_ne ht ..)
    (iff_of_false (h.not_free hpool) nofun) (fun _ _ => Iff.rfl) h.free_nodup ?_
    (fun t _ k => Iff.rfl) ?_ ?_ (.inl ⟨by rw [hself], rfl⟩)
  · intro k
    rw [hself]
    refine (h.table k s).trans ?_
    rw [hp]
    rfl
  · rw [hself]
    rfl
  · intro _
    rw [hself]
    exact h.named s (by rw [hp]; rfl)

theorem Kept.erase (h : Kept cap place σ) (hp : place s = .held w (.erase s)) :
    Kept cap (Function.update place s (.held w (.uncount s))) (σ.eraseEntry s) := by
  have hpool : isPooled (place s) = false := by rw [hp]; rfl
  have hnamed := h.named s (by rw [hp]; rfl)
  refine h.change (h.used s hpool) (fun t _ => rfl) (iff_of_false (h.not_free hpool) nofun)
    (fun _ _ => Iff.rfl) h.free_nodup ?_ ?_ ?_ (fun _ => hnamed) (.inl ⟨rfl, rfl⟩)
  · intro k
    change (σ.sessionTable.erase (σ.sessions s).id).lookup k = some s ↔ _
    refine iff_of_false ?_ nofun
    by_cases hk : k = (σ.sessions s).id
    · rw [hk, AList.lookup_erase]
      nofun
    · rw [AList.lookup_erase_ne hk]
      exact fun hs => hk ((h.table k s).mp hs).1.symm
  · intro t ht k
    change (σ.sessionTable.erase (σ.sessions s).id).lookup k = some t ↔ _
    by_cases hk : k = (σ.sessions s).id
    · rw [hk, AList.lookup_erase]
      refine iff_of_false nofun ?_
      exact fun hs => ht (h.id_inj s t hnamed ((h.table _ t).mp hs).1.symm).symm
    · rw [AList.lookup_erase_ne hk]
  · refine (h.closing_eq hpool).trans ?_
    rw [hp]
    rfl

theorem Kept.length_erase (h : Kept cap place σ) (hp : place s = .held w (.erase s)) :
    (σ.eraseEntry s).sessionTable.keys.length + 1 = σ.sessionTable.keys.length := by
  have hlookup := (h.table _ s).mpr ⟨rfl, by rw [hp]; rfl⟩
  have hmem : (σ.sessions s).id ∈ σ.sessionTable.keys :=
    AList.mem_keys.mp (AList.lookup_isSome.mp (by rw [hlookup]; rfl))
  change (σ.sessionTable.erase (σ.sessions s).id).keys.length + 1 = _
  rw [AList.keys_erase, List.length_erase_of_mem hmem]
  exact Nat.sub_add_cancel (List.length_pos_of_mem hmem)

theorem Kept.release (h : Kept cap place σ) (hp : place s = .held w (.release s)) :
    Kept cap (Function.update place s (.on .pool)) (σ.release s) := by
  have hpool : isPooled (place s) = false := by rw [hp]; rfl
  refine h.change (h.used s hpool) (fun t _ => rfl)
    (iff_of_true (List.mem_cons_self ..) rfl) ?_ (List.nodup_cons.mpr ⟨h.not_free hpool, h.free_nodup⟩)
    (fun k => iff_of_false (h.not_tabled (by rw [hp]; rfl) k) nofun) (fun t _ k => Iff.rfl) ?_ nofun
    (.inl ⟨rfl, rfl⟩)
  · intro t ht
    exact List.mem_cons.trans (or_iff_right ht)
  · refine (h.closing_eq hpool).trans ?_
    rw [hp]
    rfl

/-! ### What one step does to the buffers -/

theorem buffers_update (place : ℕ → Place n) (hs : s < cap) (q : Place n) :
    buffers cap (Function.update place s q) + (isBuffered (place s)).toNat =
      buffers cap place + (isBuffered q).toNat := by
  have hchange := sum_change (f := fun t => (isBuffered (place t)).toNat)
    (g := fun t => (isBuffered (Function.update place s q t)).toNat) (Finset.mem_range.mpr hs)
    fun t ht => by rw [Function.update_of_ne ht]
  rwa [Function.update_self] at hchange

theorem buffers_le (cap : ℕ) (place : ℕ → Place n) : buffers cap place ≤ cap := by
  have hsum : buffers cap place ≤ ∑ _s ∈ Finset.range cap, 1 :=
    Finset.sum_le_sum fun s _ => Bool.toNat_le _
  rwa [Finset.sum_const, smul_eq_mul, Nat.mul_one, Finset.card_range] at hsum

theorem allocate_cover {p : BufferPool} {b : ℕ} (hlt : b < p.allocate.2.fresh)
    (hnot : b ∉ p.allocate.2.pool) : b = p.allocate.1 ∨ b < p.fresh ∧ b ∉ p.pool := by
  obtain ⟨pool, fresh⟩ := p
  cases pool with
  | nil =>
    rcases Nat.lt_succ_iff_lt_or_eq.mp hlt with hlt | heq
    · exact .inr ⟨hlt, List.not_mem_nil⟩
    · exact .inl heq
  | cons c rest =>
    by_cases hb : b = c
    · exact .inl hb
    · exact .inr ⟨hlt, List.not_mem_cons_of_ne_of_not_mem hb hnot⟩

/-- A buffer is taken for a Session without one: from the pool, or a new one if all of them are
with other Sessions. -/
theorem Blocks.take (h : Blocks cap place σ) (hs : s < cap) (hp : place s = .held w (.allocate s)) :
    Blocks cap (Function.update place s (.held w (.insert s))) (σ.takeBuf s) := by
  obtain ⟨hlt, hnot, hnodup, hltall, hkeep⟩ := BufferPool.allocate_spec h.nodup h.lt
  have hself : ((σ.takeBuf s).sessions s).rxBuf = some σ.bufferPool.allocate.1 := by
    simp [Server.takeBuf]
  have hother (t : ℕ) (ht : t ≠ s) : ((σ.takeBuf s).sessions t).rxBuf = (σ.sessions t).rxBuf := by
    simp [Server.takeBuf, Server.sessions_set, ht]
  have hsum := buffers_update place hs (.held w (.insert s))
  rw [hp] at hsum
  have hsum' : buffers cap (Function.update place s (.held w (.insert s))) =
      buffers cap place + 1 := hsum
  have hall := h.all
  have hnone : (σ.sessions s).rxBuf = none := by
    refine Option.isNone_iff_eq_none.mp (Option.isSome_eq_false_iff.mp ?_)
    rw [h.buffered, hp]
    rfl
  refine ⟨?_, ?_, ?_, hnodup, hltall, ?_, ?_, ?_⟩
  · intro t
    by_cases ht : t = s
    · rw [ht, hself, Function.update_self]
      rfl
    · rw [hother t ht, Function.update_of_ne ht]
      exact h.buffered t
  · intro t b hb
    by_cases ht : t = s
    · rw [ht, hself] at hb
      obtain rfl := Option.some.inj hb
      exact ⟨hlt, hnot⟩
    · rw [hother t ht] at hb
      obtain ⟨hblt, hbnot⟩ := h.out t b hb
      exact (hkeep b hblt hbnot).2
  · intro t u b hb hb'
    -- the buffer was with no Session
    have hnew (v : ℕ) (hv : v ≠ s) (hvb : ((σ.takeBuf s).sessions v).rxBuf = some b) :
        b ≠ σ.bufferPool.allocate.1 := by
      rw [hother v hv] at hvb
      obtain ⟨hblt, hbnot⟩ := h.out v b hvb
      exact (hkeep b hblt hbnot).1
    have hmine (hvb : ((σ.takeBuf s).sessions s).rxBuf = some b) :
        b = σ.bufferPool.allocate.1 := by
      rw [hself] at hvb
      exact (Option.some.inj hvb).symm
    by_cases ht : t = s <;> by_cases hu : u = s
    · rw [ht, hu]
    · exact absurd (hmine (ht ▸ hb)) (hnew u hu hb')
    · exact absurd (hmine (hu ▸ hb')) (hnew t ht hb)
    · exact h.inj t u b (hother t ht ▸ hb) (hother u hu ▸ hb')
  · intro b hblt hbnot
    rcases allocate_cover hblt hbnot with rfl | ⟨hold, hout⟩
    · exact ⟨s, hself⟩
    · obtain ⟨t, ht⟩ := h.cover b hold hout
      refine ⟨t, (hother t ?_).trans ht⟩
      rintro rfl
      rw [hnone] at ht
      contradiction
  · rw [hsum']
    change σ.bufferPool.allocate.2.fresh = σ.bufferPool.allocate.2.pool.length + _
    rw [BufferPool.allocate]
    cases hpool : σ.bufferPool.pool with
    | nil =>
      rw [hpool, List.length_nil] at hall
      simp only [List.length_nil]
      omega
    | cons b rest =>
      rw [hpool, List.length_cons] at hall
      simp only
      omega
  · change σ.bufferPool.allocate.2.fresh ≤ _
    have hle := buffers_le cap (Function.update place s (.held w (.insert s)))
    have hbound := h.bound
    rw [BufferPool.allocate]
    cases hpool : σ.bufferPool.pool with
    | nil =>
      rw [hpool, List.length_nil] at hall
      simp only
      omega
    | cons b rest => exact hbound

theorem Blocks.give (h : Blocks cap place σ) (hs : s < cap) (hp : place s = .held w (.giveBuf s)) :
    Blocks cap (Function.update place s (.held w (.erase s))) (σ.giveBuf s) := by
  obtain ⟨b, hb⟩ : ∃ b, (σ.sessions s).rxBuf = some b := by
    refine Option.isSome_iff_exists.mp ?_
    rw [h.buffered, hp]
    rfl
  have hpool : (σ.giveBuf s).bufferPool = σ.bufferPool.release b := by simp [Server.giveBuf, hb]
  have hself : ((σ.giveBuf s).sessions s).rxBuf = none := by simp [Server.giveBuf]
  have hother (t : ℕ) (ht : t ≠ s) : ((σ.giveBuf s).sessions t).rxBuf = (σ.sessions t).rxBuf := by
    simp [Server.giveBuf, Server.sessions_set, ht]
  have hsum := buffers_update place hs (.held w (.erase s))
  rw [hp] at hsum
  have hsum' : buffers cap (Function.update place s (.held w (.erase s))) + 1 =
      buffers cap place := hsum
  obtain ⟨hblt, hbnot⟩ := h.out s b hb
  have hsome {t c : ℕ} (hc : ((σ.giveBuf s).sessions t).rxBuf = some c) :
      t ≠ s ∧ (σ.sessions t).rxBuf = some c := by
    by_cases ht : t = s
    · rw [ht, hself] at hc
      contradiction
    · exact ⟨ht, hother t ht ▸ hc⟩
  refine ⟨?_, ?_, ?_, ?_, ?_, ?_, ?_, ?_⟩
  · intro t
    by_cases ht : t = s
    · rw [ht, hself, Function.update_self]
      rfl
    · rw [hother t ht, Function.update_of_ne ht]
      exact h.buffered t
  · intro t c hc
    obtain ⟨ht, hc⟩ := hsome hc
    obtain ⟨hclt, hcnot⟩ := h.out t c hc
    rw [hpool]
    refine ⟨hclt, List.not_mem_cons_of_ne_of_not_mem ?_ hcnot⟩
    rintro rfl
    exact ht (h.inj t s c hc hb)
  · exact fun t u c hc hc' => h.inj t u c (hsome hc).2 (hsome hc').2
  · rw [hpool]
    exact List.nodup_cons.mpr ⟨hbnot, h.nodup⟩
  · rw [hpool]
    intro c hc
    rcases List.mem_cons.mp hc with rfl | hc
    · exact hblt
    · exact h.lt c hc
  · rw [hpool]
    intro c hclt hcnot
    obtain ⟨hcb, hcnot⟩ := List.ne_and_not_mem_of_not_mem_cons hcnot
    obtain ⟨t, ht⟩ := h.cover c hclt hcnot
    refine ⟨t, (hother t ?_).trans ht⟩
    rintro rfl
    exact hcb (Option.some.inj (ht.symm.trans hb))
  · have hall := h.all
    rw [hpool]
    change σ.bufferPool.fresh = (b :: σ.bufferPool.pool).length + _
    rw [List.length_cons]
    omega
  · rw [hpool]
    exact h.bound

/-! ### What one step does to the record -/

theorem Recorded.number (h : Recorded place σ) {acceptSock : Option ℕ}
    (hp : place s = .held w (.number s acceptSock)) :
    Recorded (Function.update place s (.held w (.sending s))) (σ.number s acceptSock) := by
  have hself : ((σ.number s acceptSock).sessions s).id = σ.sessionIdGen := by
    simp [Server.number]
  have hother (t : ℕ) (ht : t ≠ s) :
      ((σ.number s acceptSock).sessions t).id = (σ.sessions t).id := by
    simp [Server.number, Server.sessions_set, ht]
  have hlive : isLive (place s) = false := by rw [hp]; rfl
  refine ⟨h.nodup, fun c hc => Nat.lt_succ_of_lt (h.lt c hc), ?_, ?_, h.closed_nodup, ?_⟩
  · intro t hu
    by_cases ht : t = s
    · rw [ht, hself]
      exact fun hmem => (h.lt _ hmem).ne rfl
    · rw [Function.update_of_ne ht] at hu
      rw [hother t ht]
      exact h.told t hu
  · intro t hl
    by_cases ht : t = s
    · rw [ht, Function.update_self] at hl
      contradiction
    · rw [Function.update_of_ne ht] at hl
      rw [hother t ht]
      exact h.live t hl
  · intro t k
    refine (h.closed t k).trans (and_congr_right fun _ => not_congr ?_)
    by_cases ht : t = s
    · rw [ht, Function.update_self, hlive]
      exact iff_of_false (fun hn => nomatch hn.2) fun hn => nomatch hn.2
    · rw [hother t ht, Function.update_of_ne ht]

theorem Recorded.insert (h : Recorded place σ) (hp : place s = .held w (.insert s))
    (hlt : (σ.sessions s).id < σ.sessionIdGen) :
    Recorded (Function.update place s (.on .open)) (σ.insertEntry s) := by
  have hnew := h.told s (by rw [hp]; rfl)
  have haccepts : accepts (σ.insertEntry s).trace = accepts σ.trace ++ [(s, (σ.sessions s).id)] :=
    List.filterMap_append
  have hcloses : closes (σ.insertEntry s).trace = closes σ.trace :=
    List.filterMap_append.trans (List.append_nil _)
  have hmem (t k : ℕ) : (t, k) ∈ accepts (σ.insertEntry s).trace ↔
      (t, k) ∈ accepts σ.trace ∨ t = s ∧ k = (σ.sessions s).id := by
    rw [haccepts, List.mem_append, List.mem_singleton, Prod.mk.injEq]
  refine ⟨?_, ?_, ?_, ?_, ?_, ?_⟩
  · rw [haccepts]
    refine List.nodup_append.mpr ⟨h.nodup, List.nodup_singleton _, ?_⟩
    rintro c hc d hd rfl
    rw [List.mem_singleton.mp hd] at hc
    exact hnew hc
  · rintro ⟨t, k⟩ hc
    rcases (hmem t k).mp hc with hc | ⟨-, rfl⟩
    · exact h.lt _ hc
    · exact hlt
  · intro t hu
    by_cases ht : t = s
    · rw [ht, Function.update_self] at hu
      contradiction
    · rw [Function.update_of_ne ht] at hu
      rw [hmem]
      exact not_or_intro (h.told t hu) fun hs => ht hs.1
  · intro t hl
    rw [hmem]
    by_cases ht : t = s
    · rw [ht]
      exact .inr ⟨rfl, rfl⟩
    · rw [Function.update_of_ne ht] at hl
      exact .inl (h.live t hl)
  · rw [hcloses]
    exact h.closed_nodup
  · intro t k
    rw [hcloses, hmem, h.closed]
    by_cases ht : t = s
    · rw [ht, Function.update_self, hp]
      constructor
      · rintro ⟨hc, -⟩
        refine ⟨.inl hc, ?_⟩
        rintro ⟨rfl, -⟩
        exact hnew hc
      · rintro ⟨hc | ⟨-, rfl⟩, hn⟩
        · exact ⟨hc, fun hl => nomatch hl.2⟩
        · exact absurd ⟨rfl, rfl⟩ hn
    · rw [Function.update_of_ne ht]
      exact and_congr_left fun _ => (or_iff_left fun hs => ht hs.1).symm

theorem Recorded.release (h : Recorded place σ) (hp : place s = .held w (.release s)) :
    Recorded (Function.update place s (.on .pool)) (σ.release s) := by
  have hold := h.live s (by rw [hp]; rfl)
  have haccepts : accepts (σ.release s).trace = accepts σ.trace :=
    List.filterMap_append.trans (List.append_nil _)
  have hcloses : closes (σ.release s).trace = closes σ.trace ++ [(s, (σ.sessions s).id)] :=
    List.filterMap_append
  have hnot : (s, (σ.sessions s).id) ∉ closes σ.trace :=
    fun hc => ((h.closed s _).mp hc).2 ⟨rfl, by rw [hp]; rfl⟩
  refine ⟨haccepts ▸ h.nodup, haccepts ▸ h.lt, ?_, ?_, ?_, ?_⟩
  · intro t hu
    rw [haccepts]
    by_cases ht : t = s
    · rw [ht, Function.update_self] at hu
      contradiction
    · rw [Function.update_of_ne ht] at hu
      exact h.told t hu
  · intro t hl
    rw [haccepts]
    by_cases ht : t = s
    · rw [ht, Function.update_self] at hl
      contradiction
    · rw [Function.update_of_ne ht] at hl
      exact h.live t hl
  · rw [hcloses]
    refine List.nodup_append.mpr ⟨h.closed_nodup, List.nodup_singleton _, ?_⟩
    rintro c hc d hd rfl
    rw [List.mem_singleton.mp hd] at hc
    exact hnot hc
  · intro t k
    rw [hcloses, haccepts, List.mem_append, List.mem_singleton, Prod.mk.injEq, h.closed]
    by_cases ht : t = s
    · rw [ht, Function.update_self, hp]
      constructor
      · rintro (⟨hc, -⟩ | ⟨-, rfl⟩)
        · exact ⟨hc, fun hl => nomatch hl.2⟩
        · exact ⟨hold, fun hl => nomatch hl.2⟩
      · rintro ⟨hc, -⟩
        by_cases hk : (σ.sessions s).id = k
        · exact .inr ⟨rfl, hk.symm⟩
        · exact .inl ⟨hc, fun hl => hk hl.1⟩
    · rw [Function.update_of_ne ht]
      exact or_iff_left fun hs => ht hs.1

end IocpChat.Workers
