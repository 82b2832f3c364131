import IocpChat.Proofs.Moves
import IocpChat.Spec.Books

/-! The attempts of `PostAccept`. One that fails gives back what it created and the next one
follows, so the function returns with the first attempt that does not fail; and it does not
return if there is none, for nothing else ends it. -/

namespace IocpChat

open Runs (retry_of_fails retry_eq_some retry_returns_iff)

variable {env : Env} {σ σ' : Server}

theorem Released.failedAccept {k : ℕ} (h : Released k σ σ') :
    Released (k + 1) σ (σ'.failedAccept env) := by
  obtain ⟨m, hnext, hclosed⟩ := h.socks
  exact
    { inFlight := h.inFlight
      nextOv := congrArg (· + 1) h.nextOv
      deleted := by
        change σ'.accepts.deleted ++ [σ'.accepts.nextOv] = _
        rw [h.deleted, h.nextOv, List.append_assoc, List.range'_1_concat]
      socks := by
        change ∃ m, σ'.accepts.nextSock + (env.attemptSock σ').toList.length = _ ∧
          σ'.closedSocks ++ (env.attemptSock σ').toList = _
        unfold Env.attemptSock
        split_ifs
        · exact ⟨m, hnext, by rw [hclosed]; exact List.append_nil _⟩
        · refine ⟨m + 1, congrArg (· + 1) hnext, ?_⟩
          rw [hclosed, hnext, List.range'_1_concat, Option.toList_some, List.append_assoc] }

theorem released_attempt (env : Env) (σ : Server) (k : ℕ) : Released k σ (σ.attempt env k) := by
  induction k with
  | zero =>
    exact
      { inFlight := rfl
        nextOv := rfl
        deleted := (List.append_nil _).symm
        socks := ⟨0, rfl, (List.append_nil _).symm⟩ }
  | succ k ih =>
    unfold Server.attempt
    rw [Function.iterate_succ_apply']
    exact ih.failedAccept

theorem Released.postedOne {k : ℕ} (h : Released k σ σ') : PostedOne σ σ'.postedAccept := by
  obtain ⟨m, hnext, hclosed⟩ := h.socks
  refine ⟨σ'.accepts.nextOv, σ'.accepts.nextSock, ?_, rfl, rfl, ?_, ?_⟩
  · exact congrArg (· ++ _) h.inFlight
  · rw [h.nextOv, Nat.add_sub_cancel_left]
    exact h.deleted
  · rw [hnext, Nat.add_sub_cancel_left]
    exact hclosed

theorem postAccept_returns_iff : (∃ fuel σ', postAccept env fuel σ = some σ') ↔
    ∃ k, env.attemptFails (σ.attempt env k) = false := by
  simp only [postAccept_eq_retry]
  exact retry_returns_iff

/-- `PostAccept` does what it is for exactly if one of the attempts succeeds that it makes as
long as they fail. -/
theorem postsAccept_iff (env : Env) (σ : Server) : PostsAccept env σ ↔
    ∃ k, env.wsaSocketFails (σ.attempt env k) = false ∧
      env.acceptExFails (σ.attempt env k) = false := by
  have hsucceeds (τ : Server) : env.attemptFails τ = false ↔
      env.wsaSocketFails τ = false ∧ env.acceptExFails τ = false := Bool.or_eq_false_iff
  simp only [← hsucceeds]
  constructor
  · intro h
    exact postAccept_returns_iff.mp h.returns
  · intro hk
    exact
      { returns := postAccept_returns_iff.mpr hk
        released := by
          intro k hfails
          refine ⟨released_attempt env σ k, ?_⟩
          intro fuel
          simp only [postAccept_eq_retry]
          exact retry_of_fails hfails fuel
        one := by
          intro fuel σ' hsome
          rw [postAccept_eq_retry] at hsome
          obtain ⟨k, -, -, -, rfl⟩ := retry_eq_some.mp hsome
          exact (released_attempt env σ k).postedOne }

/-- `Stop` has closed `listenSocket_`. -/
def Env.stopped : Env := { Env.calm with acceptExFails := fun _ => true }

theorem postAccept_stopped (fuel : ℕ) (σ : Server) : postAccept .stopped fuel σ = none := by
  cases hpost : postAccept .stopped fuel σ with
  | none => rfl
  | some σ' =>
    obtain ⟨k, hk⟩ := postAccept_returns_iff.mp ⟨fuel, σ', hpost⟩
    exact absurd hk (by unfold Env.attemptFails; simp [Env.stopped])

/-- A client connects while `Stop` has closed the listening socket: `AcceptCompletion` does
not come back from `PostAccept`. -/
theorem postAccept_never_returns : ∃ σ op, start .calm 1 1 1 = some σ ∧
    σ.accepts.inFlight = [op] ∧ ¬ PostsAccept .stopped σ ∧
    (∀ fuel, postAccept .stopped fuel σ = none) ∧
    ∀ fuel, acceptCompletion .stopped fuel op (σ.dequeueAccept 0) = none := by
  refine ⟨_, _, rfl, rfl, ?_, fun fuel => postAccept_stopped fuel _, ?_⟩
  · intro h
    obtain ⟨fuel, σ', hsome⟩ := h.returns
    rw [postAccept_stopped] at hsome
    cases hsome
  · intro fuel
    unfold acceptCompletion
    split
    · rw [postAccept_stopped]
      rfl
    · rw [postAccept_stopped]
      rfl

end IocpChat
