import StateBraid.Coordinator.Transaction

/-!
# Runs of the coordinator operations

The five operations of the coordinator as one input type, their outcomes, and the
run of any list of them. An operation that raises still leaves a state, and the run
goes on from it. The first result about runs: the hard limits hold after every
operation, for every backend.
-/

namespace StateBraid.Coordinator
open Library Policy

variable {N σ π τ : Type} [DecidableEq N]

/-- The arguments of one coordinator operation. -/
inductive Operation (N π : Type)
  | admitEntry (key : CacheKey N) (payload : π) (role : Role) (nbytes : ℤ)
      (predecessor : Option (CacheKey N))
  | admitStableCandidate (key : CacheKey N) (payload : π) (nbytes : ℤ)
  | observeHit (key : CacheKey N)
  | trimTo (nSequences nBytes : Option ℤ)
  | forgetRemote (keys : List (CacheKey N))

/-- What an operation returns: a truth value, or the keys it removed. -/
inductive Reply (N : Type)
  | flag (value : Bool)
  | keys (removed : List (CacheKey N))

/-- Turn the result of a computation into a reply. -/
def replyWith {σ α : Type} (f : α → Reply N) (m : Exec PyError σ α) :
    Exec PyError σ (Reply N) := do
  let a ← m
  pure (f a)

/-- Call the operation. -/
def perform (B : TransactionalBackend N σ π τ) :
    Operation N π → Exec PyError (CacheCoordinator N σ) (Reply N)
  | .admitEntry key payload role nbytes predecessor =>
    replyWith .flag (admitEntry B key payload role nbytes predecessor)
  | .admitStableCandidate key payload nbytes =>
    replyWith .flag (admitStableCandidate B key payload nbytes)
  | .observeHit key => replyWith .flag (observeHit key)
  | .trimTo nSequences nBytes => replyWith .flag (trimTo B nSequences nBytes)
  | .forgetRemote keys => replyWith .keys (forgetRemote B keys)

/-- The state an operation leaves, whether it returned or raised. -/
def stepOperation (B : TransactionalBackend N σ π τ) (c : CacheCoordinator N σ)
    (op : Operation N π) : CacheCoordinator N σ := (perform B op c).2

/-- The state after a list of operations. -/
def runOperations (B : TransactionalBackend N σ π τ) (c : CacheCoordinator N σ)
    (ops : List (Operation N π)) : CacheCoordinator N σ := ops.foldl (stepOperation B) c

@[simp] theorem replyWith_state {N σ α : Type} (f : α → Reply N) (m : Exec PyError σ α)
    (s : σ) :
    (replyWith f m s).2 = (m s).2 := by
  unfold replyWith
  rcases h : m s with ⟨⟨e⟩ | ⟨a⟩, s'⟩
  · rw [Exec.bind_of_error h]
  · rw [Exec.bind_of_ok h, Exec.pure_apply]

theorem admitStableCandidate_apply (B : TransactionalBackend N σ π τ) (key : CacheKey N)
    (payload : π) (nbytes : ℤ) (c : CacheCoordinator N σ) :
    admitStableCandidate B key payload nbytes c =
      match WorkingSetPolicy.planStableCandidate key nbytes c.policy with
      | (.ok plan, policy) => admitPlan B plan payload { c with policy := policy }
      | (.error e, policy) => (.error e, { c with policy := policy }) := by
  unfold admitStableCandidate
  rcases h : WorkingSetPolicy.planStableCandidate key nbytes c.policy with ⟨⟨e⟩ | ⟨plan⟩, policy⟩ <;>
    simp [Exec.bind_apply, onPolicy, Exec.zoom, h]

/-! ## An invariant of the policy over whole runs -/

/-- What a policy invariant must survive for the operations to keep it: the commit of a
plan in the state it was made in, any removal of residents, a hit, and the probation. -/
structure PolicyInvariant (I : WorkingSetPolicy N → Prop) : Prop where
  planAdmission : ∀ p key role nbytes predecessor, I p →
    I (p.commit (p.planAdmission key role nbytes predecessor))
  planStable : ∀ p key nbytes plan q, I p →
    WorkingSetPolicy.planStableCandidate key nbytes p = (.ok plan, q) → I (q.commit plan)
  probation : ∀ p key nbytes, I p → I (WorkingSetPolicy.planStableCandidate key nbytes p).2
  commitTrim : ∀ p plan, I p → I (p.commitTrim plan)
  observeHit : ∀ p key, I p → I (p.observeHit key).2

theorem PolicyInvariant.step {I : WorkingSetPolicy N → Prop} (hI : PolicyInvariant I)
    (B : TransactionalBackend N σ π τ) (c : CacheCoordinator N σ) (op : Operation N π)
    (h : I c.policy) : I (stepOperation B c op).policy := by
  cases op with
  | admitEntry key payload role nbytes predecessor =>
    rw [stepOperation, perform, replyWith_state, admitEntry, Exec.gets_bind_apply]
    exact admit_invariant B _ payload c h (hI.planAdmission _ _ _ _ _ h)
  | admitStableCandidate key payload nbytes =>
    rw [stepOperation, perform, replyWith_state, admitStableCandidate_apply]
    have hprobed := hI.probation c.policy key nbytes h
    split
    · rename_i plan policy hplan
      rw [hplan] at hprobed
      exact admit_invariant B plan payload _ hprobed (hI.planStable _ _ _ _ _ h hplan)
    · rename_i e policy hplan
      rwa [hplan] at hprobed
  | observeHit key =>
    rw [stepOperation, perform, replyWith_state]
    exact hI.observeHit _ key h
  | trimTo nSequences nBytes =>
    rw [stepOperation, perform, replyWith_state, trimTo]
    split
    · exact trim_invariant B _ c h (hI.commitTrim _ _ h)
    · exact h
  | forgetRemote keys =>
    rw [stepOperation, perform, replyWith_state]
    have hforget := forgetRemote_invariant B hI.commitTrim keys c h
    revert hforget
    rcases forgetRemote B keys c with ⟨⟨e⟩ | ⟨removed⟩, c'⟩ <;> exact id

theorem PolicyInvariant.run {I : WorkingSetPolicy N → Prop} (hI : PolicyInvariant I)
    (B : TransactionalBackend N σ π τ) (c : CacheCoordinator N σ) (ops : List (Operation N π))
    (h : I c.policy) : I (runOperations B c ops).policy :=
  Run.foldl_invariant (I := fun c => I c.policy) (fun c op hc => hI.step B c op hc) ops c h

/-! ## The hard limits -/

theorem withinLimits_invariant :
    PolicyInvariant (WorkingSetPolicy.WithinLimits (N := N)) where
  planAdmission _ _ _ _ _ h :=
    WorkingSetPolicy.commit_withinLimits h (WorkingSetPolicy.planAdmission_fits _ _ _ _ _)
  planStable p key nbytes plan q h hplan := by
    have hsame := p.planStableCandidate_sameResidents key nbytes
    rw [hplan] at hsame
    exact WorkingSetPolicy.commit_withinLimits (h.congr hsame.entries hsame.config)
      (WorkingSetPolicy.planStableCandidate_fits hplan)
  probation p key nbytes h :=
    have hsame := p.planStableCandidate_sameResidents key nbytes
    h.congr hsame.entries hsame.config
  commitTrim _ plan h := WorkingSetPolicy.commitTrim_withinLimits h plan
  observeHit _ key h := WorkingSetPolicy.observeHit_withinLimits h key

theorem config_invariant (config : PolicyConfig) :
    PolicyInvariant (fun p : WorkingSetPolicy N => p.config = config) where
  planAdmission _ _ _ _ _ h := by rw [WorkingSetPolicy.commit_config, h]
  planStable p key nbytes plan q h hplan := by
    have hsame := p.planStableCandidate_sameResidents key nbytes
    rw [hplan] at hsame
    rw [WorkingSetPolicy.commit_config, hsame.config, h]
  probation p key nbytes h := by
    rw [(p.planStableCandidate_sameResidents key nbytes).config, h]
  commitTrim _ _ h := by rw [WorkingSetPolicy.commitTrim_config, h]
  observeHit p key h := by
    unfold WorkingSetPolicy.observeHit
    split <;> exact h

/-- After any run of the operations over any backend, which may raise from any of its
calls, the residents are within both limits of the configuration. -/
theorem run_within_hard_limits (config : PolicyConfig) (B : TransactionalBackend N σ π τ) (b : σ)
    (ops : List (Operation N π)) :
    (runOperations B ⟨.new config, b⟩ ops).policy.nSequences ≤ config.maxSequences ∧
      (runOperations B ⟨.new config, b⟩ ops).policy.residentBytes ≤ config.maxBytes := by
  have hlimits := withinLimits_invariant.run B ⟨.new config, b⟩ ops
    (WorkingSetPolicy.new_withinLimits config)
  have hconfig := (config_invariant config).run B ⟨.new config, b⟩ ops rfl
  have hsequences := hlimits.sequences
  have hbytes := hlimits.bytes
  rw [hconfig] at hsequences hbytes
  exact ⟨hsequences, hbytes⟩

end StateBraid.Coordinator
