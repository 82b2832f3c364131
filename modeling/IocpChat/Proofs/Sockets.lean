import IocpChat.Proofs.Bookkeeping

/-! Where the sockets and the `OverlappedEx` of the accepts are. A handler may have some in
its hands; between handlers every socket is attached to an accept in flight, belongs to a
Session of the table, or is closed. -/

namespace IocpChat

open Relation (ReflTransGen)
open Runs (Exec retry_invariant)

variable {env : Env} {cur max n : ℕ} {s : ℕ} {socks : List (Option ℕ)} {ovs : List ℕ} {σ σ' : Server}

/-- With the sockets and the `OverlappedEx` that a handler has in its hands, `n` accepts in
flight and everything that was created is somewhere, once. -/
structure Held (n : ℕ) (socks : List (Option ℕ)) (ovs : List ℕ) (σ : Server) : Prop where
  inFlight : σ.accepts.inFlight.length = n
  socks : (socks ++ (σ.flightSocks ++ σ.tabledSocks ++ σ.closedSocks.map some)).Perm
    ((List.range σ.accepts.nextSock).map some)
  ovs : (ovs ++ (σ.accepts.inFlight.map AcceptOp.ov ++ σ.accepts.deleted)).Perm
    (List.range σ.accepts.nextOv)

theorem Held.conserved (h : Held n [] [] σ) : Conserved n σ := ⟨h.inFlight, h.socks, h.ovs⟩

/-! ### What leaves sockets alone -/

theorem Held.congr (h : Held n socks ovs σ) (hacc : σ'.accepts = σ.accepts)
    (hclosed : σ'.closedSocks = σ.closedSocks) (htable : σ'.sessionTable = σ.sessionTable)
    (hsock : ∀ t, (σ'.sessions t).sock = (σ.sessions t).sock) : Held n socks ovs σ' := by
  have htabled : σ'.tabledSocks = σ.tabledSocks := by
    simp only [Server.tabledSocks, Server.tabled, htable, hsock]
  refine ⟨hacc ▸ h.inFlight, ?_, hacc ▸ h.ovs⟩
  rw [htabled, hclosed, Server.flightSocks, hacc]
  exact h.socks

theorem Held.set (h : Held n socks ovs σ) {x : Session} (hsock : x.sock = (σ.sessions s).sock) :
    Held n socks ovs (σ.set s x) := by
  refine h.congr rfl rfl rfl ?_
  intro t
  rw [Server.sessions_set]
  split_ifs with ht
  · rw [hsock, ht]
  · rfl

theorem Held.emit (h : Held n socks ovs σ) (e : Effect) : Held n socks ovs (σ.emit e) :=
  h.congr rfl rfl rfl fun _ => rfl

/-! ### Closing a Session -/

theorem Books.tabled_close (hb : Books max σ) (ho : σ.Open s) :
    σ.tabled.Perm (s :: (closeSession s σ).tabled) := by
  have hclosed := hb.close ho
  have hopen := open_closeSession ho.1
  have hout : s ∉ (closeSession s σ).tabled := by
    rw [hclosed.mem_tabled, hopen]
    exact fun h => h.1 rfl
  apply (List.perm_ext_iff_of_nodup hb.tabled_nodup
    (List.nodup_cons.mpr ⟨hout, hclosed.tabled_nodup⟩)).mpr
  intro t
  rw [List.mem_cons, hb.mem_tabled, hclosed.mem_tabled, hopen]
  constructor
  · intro ht
    by_cases hts : t = s
    · exact .inl hts
    · exact .inr ⟨hts, ht⟩
  · rintro (rfl | ht)
    · exact ho
    · exact ht.2

theorem sock_closeSession (hc : (σ.sessions s).closing = false) (t : ℕ) :
    ((closeSession s σ).sessions t).sock = (σ.sessions t).sock := by
  rw [sessions_closeSession hc]
  split_ifs with ht
  · rw [ht]
  · rfl

theorem tabledSocks_close (hb : Books max σ) (ho : σ.Open s) :
    σ.tabledSocks.Perm ((σ.sessions s).sock :: (closeSession s σ).tabledSocks) := by
  have hperm := (hb.tabled_close ho).map fun t => (σ.sessions t).sock
  rw [Server.tabledSocks, Server.tabledSocks, funext (sock_closeSession ho.1)]
  exact hperm

/-- The socket of a Session of the table is closed and leaves the table. -/
theorem Held.close (h : Held n socks ovs σ) (hb : Books max σ) (ho : σ.Open s) :
    Held n socks ovs (closeSession s σ) := by
  have htabled := tabledSocks_close hb ho
  have hmem : (σ.sessions s).sock ∈ (List.range σ.accepts.nextSock).map some := by
    apply h.socks.subset
    have := htabled.mem_iff.mpr (List.mem_cons_self ..)
    simp [this]
  obtain ⟨k, -, hk⟩ := List.mem_map.mp hmem
  have hclosed : (closeSession s σ).closedSocks = σ.closedSocks ++ [k] := by
    simp [closeSession, ho.1, ← hk]
  have hacc : (closeSession s σ).accepts = σ.accepts := by
    simp [closeSession, ho.1, Server.set]
  refine ⟨hacc ▸ h.inFlight, ?_, hacc ▸ h.ovs⟩
  rw [hacc, Server.flightSocks, hacc, hclosed]
  refine (List.perm_iff_count.mpr fun a => ?_).trans h.socks
  have hcount := htabled.count_eq a
  simp only [Server.flightSocks, List.count_append, List.map_append, List.map_cons, List.map_nil,
    ← hk, List.count_cons, List.count_nil] at hcount ⊢
  omega

/-! ### Connecting a Session -/

theorem tabledSocks_connect (hb : Books max σ) {free : List ℕ} (hf : σ.free = s :: free)
    (sock : Option ℕ) : (connect s free sock σ).tabledSocks.Perm (sock :: σ.tabledSocks) := by
  have hconn := hb.connects hf sock
  have hclosed : ¬ σ.Open s := ((hb.free s).mp (by rw [hf]; simp)).2
  have htabled : (connect s free sock σ).tabled.Perm (s :: σ.tabled) := by
    apply (List.perm_ext_iff_of_nodup hconn.tabled_nodup
      (List.nodup_cons.mpr ⟨mt hb.mem_tabled.mp hclosed, hb.tabled_nodup⟩)).mpr
    intro t
    rw [List.mem_cons, hconn.mem_tabled, hb.mem_tabled, open_connect hb.grounded.idGen]
  have hself : ((connect s free sock σ).sessions s).sock = sock := by
    rw [sessions_connect, if_pos rfl]
    rfl
  have hothers : (σ.tabled.map fun t => ((connect s free sock σ).sessions t).sock) =
      σ.tabledSocks := by
    apply List.map_congr_left
    intro t ht
    rw [sessions_connect, if_neg]
    rintro rfl
    exact hclosed (hb.mem_tabled.mp ht)
  have hperm := htabled.map fun t => ((connect s free sock σ).sessions t).sock
  rwa [List.map_cons, hself, hothers] at hperm

/-- The socket in hand goes to the Session that is taken from the pool. -/
theorem Held.connect {sock : Option ℕ} (h : Held n [sock] ovs σ) (hb : Books max σ) {free : List ℕ}
    (hf : σ.free = s :: free) : Held n [] ovs (connect s free sock σ) := by
  have htabled := tabledSocks_connect hb hf sock
  have hacc : (IocpChat.connect s free sock σ).accepts = σ.accepts := by rw [connect_eq]; rfl
  have hclosed : (IocpChat.connect s free sock σ).closedSocks = σ.closedSocks := by
    rw [connect_eq]
    rfl
  refine ⟨hacc ▸ h.inFlight, ?_, hacc ▸ h.ovs⟩
  rw [hacc, Server.flightSocks, hacc, hclosed]
  refine (List.perm_iff_count.mpr fun a => ?_).trans h.socks
  have hcount := htabled.count_eq a
  simp only [Server.flightSocks, List.count_append, List.nil_append, List.count_cons,
    List.count_nil] at hcount ⊢
  omega

/-- The socket in hand is closed. -/
theorem Held.closeHand {sock : Option ℕ} (h : Held n [sock] ovs σ) :
    Held n [] ovs { σ with closedSocks := σ.closedSocks ++ sock.toList } := by
  obtain ⟨k, -, rfl⟩ := List.mem_map.mp (h.socks.subset (List.mem_append_left _ (List.mem_singleton_self sock)))
  refine ⟨h.inFlight, (List.perm_iff_count.mpr fun a => ?_).trans h.socks, h.ovs⟩
  simp only [Server.flightSocks, Server.tabledSocks, Server.tabled, List.map_append, List.map_cons,
    List.map_nil, Option.toList_some, List.count_append, List.count_cons, List.count_nil]
  omega

/-! ### Posting an accept -/

/-- The socket of a failed attempt is closed and its operation deleted. -/
theorem Held.failedAccept (h : Held n socks ovs σ) : Held n socks ovs (σ.failedAccept env) := by
  have hrange : (List.range (σ.failedAccept env).accepts.nextSock).map some =
      (List.range σ.accepts.nextSock).map some ++ (env.attemptSock σ).toList.map some := by
    change (List.range (σ.accepts.nextSock + (env.attemptSock σ).toList.length)).map some = _
    unfold Env.attemptSock
    split_ifs
    · exact (List.append_nil _).symm
    · simp [List.range_succ]
  refine ⟨h.inFlight, ?_, ?_⟩
  · have hsocks := h.socks.append_right ((env.attemptSock σ).toList.map some)
    rw [← hrange] at hsocks
    simpa only [Server.failedAccept, Server.side, Server.flightSocks, Server.tabledSocks,
      Server.tabled, List.map_append, List.append_assoc] using hsocks
  · have hovs := h.ovs.append_right [σ.accepts.nextOv]
    rw [← List.range_succ] at hovs
    simpa only [Server.failedAccept, Server.side, List.append_assoc] using hovs

/-- The socket and the operation of the last attempt are in flight. -/
theorem Held.postedAccept (h : Held n socks ovs σ) : Held (n + 1) socks ovs σ.postedAccept := by
  refine ⟨?_, ?_, ?_⟩
  · change (σ.accepts.inFlight ++ [_]).length = n + 1
    rw [List.length_append, h.inFlight]
    rfl
  · change List.Perm _ ((List.range (σ.accepts.nextSock + 1)).map some)
    rw [List.range_succ, List.map_append]
    refine (List.perm_iff_count.mpr fun a => ?_).trans (h.socks.append_right _)
    simp only [Server.postedAccept, Server.side, Server.flightSocks, Server.tabledSocks,
      Server.tabled, List.map_append, List.count_append, List.map_cons, List.map_nil]
    omega
  · change List.Perm _ (List.range (σ.accepts.nextOv + 1))
    rw [List.range_succ]
    refine (List.perm_iff_count.mpr fun a => ?_).trans (h.ovs.append_right _)
    simp only [Server.postedAccept, Server.side, List.map_append, List.count_append,
      List.map_cons, List.map_nil]
    omega

theorem Held.postAccept (h : Held n socks ovs σ) {fuel : ℕ}
    (hpost : postAccept env fuel σ = some σ') : Held (n + 1) socks ovs σ' := by
  rw [postAccept_eq_retry] at hpost
  refine retry_invariant (P := Held n socks ovs) ?_ ?_ hpost h
  · intro τ hτ _
    exact hτ.failedAccept
  · intro τ hτ _
    exact hτ.postedAccept

/-- A handler takes an accept out of flight. -/
theorem Held.dequeueAccept (h : Held n [] [] σ) {i : ℕ} {op : AcceptOp}
    (hop : σ.accepts.inFlight[i]? = some op) :
    0 < n ∧ Held (n - 1) [op.acceptSock] [op.ov] (σ.dequeueAccept i) := by
  obtain ⟨hi, rfl⟩ := List.getElem?_eq_some_iff.mp hop
  have hn := h.inFlight
  have hperm := List.getElem_cons_eraseIdx_perm hi
  refine ⟨by omega, ?_, ?_, ?_⟩
  · rw [Server.dequeueAccept, List.length_eraseIdx_of_lt hi, hn]
  · refine (List.perm_iff_count.mpr fun a => ?_).trans h.socks
    have hcount := (hperm.map AcceptOp.acceptSock).count_eq a
    simp only [Server.dequeueAccept, Server.flightSocks, Server.tabledSocks, Server.tabled,
      List.count_append, List.map_cons, List.count_cons, List.count_nil] at hcount ⊢
    omega
  · refine (List.perm_iff_count.mpr fun a => ?_).trans h.ovs
    have hcount := (hperm.map AcceptOp.ov).count_eq a
    simp only [Server.dequeueAccept, List.count_append, List.map_cons, List.count_cons,
      List.count_nil] at hcount ⊢
    omega

theorem Held.deleteOv {ov : ℕ} (h : Held n socks (ov :: ovs) σ) :
    Held n socks ovs (σ.deleteOv ov) := by
  refine ⟨h.inFlight, h.socks, List.Perm.trans (List.perm_iff_count.mpr fun a => ?_) h.ovs⟩
  simp only [Server.deleteOv, List.count_append, List.count_cons, List.count_nil]
  omega

/-! ### Handlers -/

theorem Held.act {N : Effect → Prop} (h : Held n socks ovs σ) (hb : Books max σ) {c : Option ℕ}
    (hact : Act env c N σ σ') : Held n socks ovs σ' := by
  cases hact with
  | note e he => exact h.emit e
  | push t data ho => exact h.set rfl
  | claim t ho => exact h.set rfl
  | idle t ho hq => exact h.set rfl
  | hand t ho =>
    have hpop : Held n socks ovs (σ.popSend t) := h.set rfl
    exact hpop.congr rfl rfl rfl fun _ => rfl
  | fail t ho hf =>
    have hpop : Held n socks ovs (σ.popSend t) := h.set rfl
    exact (hpop.emit _).close (hb.handed t false) (ho.handed false)
  | close s hs ho => exact h.close hb ho

theorem Held.works (h : Held n socks ovs σ) (hb : Books max σ) (hw : Works env cur σ σ') :
    Held n socks ovs σ' ∧ Books max σ' := by
  induction hw with
  | refl => exact ⟨h, hb⟩
  | tail _ hwork ih =>
    obtain ⟨h, hb⟩ := ih
    refine ⟨?_, hb.move (C := fun _ _ => True) (.work hwork)⟩
    cases hwork with
    | act hact => exact h.act hb hact
    | ring r => exact h.set rfl
    | mark e he => exact h.emit e

theorem Held.acts (h : Held n socks ovs σ) (hb : Books max σ) (hacts : Handles env (some cur) σ σ') :
    Held n socks ovs σ' := (h.works hb hacts.works).1

theorem Held.postRecv (h : Held n socks ovs σ) (hb : Books max σ) (hid : (σ.sessions s).id ≠ 0) :
    Held n socks ovs (postRecv env s σ) := by
  rcases postRecv_cases env s σ with ⟨-, he⟩ | ⟨hc, he | he⟩
  · rwa [he]
  · rw [he]
    exact h.congr rfl rfl rfl fun _ => rfl
  · rw [he]
    exact (h.emit _).close (hb.emit _) ⟨hc, hid⟩

/-- Whatever an accept completion does with the socket, it posts one accept again. -/
theorem Held.acceptCompletion {op : AcceptOp} (h : Held n [op.acceptSock] [op.ov] σ)
    (hb : Books max σ) {fuel : ℕ} (haccept : acceptCompletion env fuel op σ = some σ') :
    Held (n + 1) [] [] σ' := by
  rcases acceptCompletion_returns haccept with ⟨-, τ, hτ, rfl⟩ | ⟨s, free, τ, hf, hτ, rfl⟩
  · exact (h.closeHand.postAccept hτ).deleteOv
  · have hid := connect_id_ne hb.grounded.idGen s free op.acceptSock
    have hconn := hb.connects hf op.acceptSock
    have hposted := ((h.connect hb hf).postRecv hconn hid).postAccept hτ
    have hb' : Books max τ := by
      obtain ⟨acc, socks, rfl⟩ := postAccept_side hτ
      exact (hconn.moves (postRecv_moves hid : Moves env (fun _ _ => True) _ _)).side acc socks
    have hid' : (τ.sessions s).id ≠ 0 := by
      obtain ⟨acc, socks, rfl⟩ := postAccept_side hτ
      exact (postRecv_id env s s _).trans_ne hid
    exact (hposted.acts hb' (onClientConnected_acts hid' fun _ _ => rfl : Handles env (some s) _ _)).deleteOv

theorem Held.step (h : Held n [] [] σ) (hb : Books max σ) {e : Event}
    (hstep : step env σ e = some σ') : Held n [] [] σ' := by
  cases step_cases hstep with
  | accept hop haccept =>
    obtain ⟨hpos, hdeq⟩ := h.dequeueAccept hop
    have hback := hdeq.acceptCompletion (hb.side _ _) haccept
    rwa [Nat.sub_add_cancel hpos] at hback
  | fill hop hd hlen => exact h.congr rfl rfl rfl fun _ => rfl
  | @recv i op data _ hop hd hrecv =>
    have hdeq : Held n [] [] (σ.dequeueRecv i) := h.congr rfl rfl rfl fun _ => rfl
    have hb' : Books max (σ.dequeueRecv i) :=
      hb.move (Move.dequeueRecv σ i : Move env (fun _ _ => True) σ _)
    have hid : ((σ.dequeueRecv i).sessions op.sess).id ≠ 0 :=
      hb.recvs op (List.mem_of_getElem? hop)
    obtain ⟨τ, hτ, rfl | rfl⟩ := recvCompletion_works hid hb'.grounded.known hrecv
    · exact (hdeq.works hb' hτ).1
    · obtain ⟨hheld, hbooks⟩ := hdeq.works hb' hτ
      exact hheld.postRecv hbooks (by rwa [hτ.id])
  | @send i op hop =>
    have hdeq : Held n [] [] (σ.dequeueSend i) := h.congr rfl rfl rfl fun _ => rfl
    have hb' : Books max (σ.dequeueSend i) :=
      hb.move (Move.dequeueSend σ i : Move env (fun _ _ => True) σ _)
    have hid : ((σ.dequeueSend i).sessions op.sess).id ≠ 0 :=
      hb.sends op (List.mem_of_getElem? hop)
    exact hdeq.acts hb' (postSend_acts hid : Handles env (some 0) _ _)
  | enqueueSend hid => exact h.acts hb (enqueueSend_acts hid _ : Handles env (some 0) _ _)
  | broadcast => exact h.acts hb (broadcast_acts hb.grounded.known _ _ : Handles env (some 0) _ _)
  | closeSession hid => exact h.acts hb (closeSession_acts hid : Handles env (some _) _ _)

theorem Held.postAccepts (h : Held n [] [] σ) {k fuel : ℕ}
    (hposts : postAccepts env fuel k σ = some σ') : Held (n + k) [] [] σ' := by
  induction k generalizing n σ with
  | zero =>
    simp only [IocpChat.postAccepts, Option.some.injEq] at hposts
    exact hposts ▸ h
  | succ k ih =>
    obtain ⟨τ, hτ, hrest⟩ := Option.bind_eq_some_iff.mp hposts
    have hposted := ih (h.postAccept hτ) hrest
    rwa [Nat.add_assoc, Nat.add_comm 1] at hposted

theorem held_start {fuel : ℕ} (h : start env max n fuel = some σ) : Held n [] [] σ := by
  have hnew : Held 0 [] [] (Server.new max) := ⟨rfl, .refl _, .refl _⟩
  have hposted := hnew.postAccepts h
  rwa [Nat.zero_add] at hposted

/-- In every state between handlers the accepts are all in flight and no socket is lost. -/
theorem sockets_conserved {maxSessions fuel : ℕ} {σ₀ : Server} {es : List Event}
    (hstart : start env maxSessions n fuel = some σ₀)
    (h : Exec (step env) (fun _ _ => True) σ₀ es σ) : Conserved n σ := by
  have hrun := h.invariant (P := fun σ => Books maxSessions σ ∧ Held n [] [] σ)
    (fun σ e σ' ⟨hb, hh⟩ _ hstep => ⟨hb.step hstep, hh.step hb hstep⟩)
    ⟨books_start hstart, held_start hstart⟩
  exact hrun.2.conserved

/-- Two clients for one Session: the second one is turned away, the first one hangs up. -/
def turnedAway : List Event := [.accept 0 1, .accept 0 1, .fill 0 [], .recv 0, .accept 0 1]

theorem sockets_turnedAway :
    ∃ σ : Server, σ.closedSocks = [1, 0] ∧ σ.tabledSocks = [some 2] ∧ Conserved 2 σ := by
  obtain ⟨σ₀, σ, hstart, hrun, hclosed, htabled⟩ : ∃ σ₀ σ, start .calm 1 2 1 = some σ₀ ∧
      Exec (step .calm) (fun _ _ => True) σ₀ turnedAway σ ∧
        σ.closedSocks = [1, 0] ∧ σ.tabledSocks = [some 2] := exists_run (by decide +kernel)
  exact ⟨σ, hclosed, htabled, sockets_conserved hstart hrun⟩

end IocpChat
