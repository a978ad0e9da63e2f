import StateBraid.Library.Run
import StateBraid.Policy.Limits

/-!
# The cache coordinator

Plan, mutate the backend key by key, commit the policy; on any exception restore the
policy from its snapshot and the affected keys from theirs. The backend is a
parameter: its calls may do anything to its own state and may raise at any point.
The lock serialises operations, so a plan is applied in the state it was made in.
-/

namespace StateBraid.Coordinator
open Library Policy

/-- The mutation contract of a backend with state `σ`, payloads `π` and opaque
snapshots `τ`; a capture without a snapshot is Python's `None`. The optional
`forgetRemote` is what `getattr` looks for. -/
structure TransactionalBackend (N σ π τ : Type) where
  capture : CacheKey N → Exec PyError σ (Option τ)
  restore : CacheKey N → τ → Exec PyError σ Unit
  remove : CacheKey N → Exec PyError σ Unit
  insert : CacheKey N → π → Role → Exec PyError σ Unit
  forgetRemote : Option (CacheKey N → Exec PyError σ Unit)

/-- A policy and the state of the backend it steers. -/
structure CacheCoordinator (N σ : Type) where
  policy : WorkingSetPolicy N
  backend : σ

variable {N σ π τ α : Type} [DecidableEq N]

/-- Run a computation of the backend, which cannot see the policy. -/
def onBackend (m : Exec PyError σ α) : Exec PyError (CacheCoordinator N σ) α :=
  Exec.zoom CacheCoordinator.backend (fun b c => { c with backend := b }) m

/-- Run a computation of the policy, which cannot see the backend. -/
def onPolicy (m : Exec PyError (WorkingSetPolicy N) α) : Exec PyError (CacheCoordinator N σ) α :=
  Exec.zoom CacheCoordinator.policy (fun p c => { c with policy := p }) m

namespace TransactionalBackend

/-- `{key: self.backend.capture(key) for key in affected}`. -/
def captureAll (B : TransactionalBackend N σ π τ) (affected : List (CacheKey N)) :
    Exec PyError σ (Dict (CacheKey N) (Option τ)) :=
  Exec.foldEach (fun captured key => do
    let snapshot ← B.capture key
    pure (captured.insert key snapshot)) .empty affected

/-- The backend calls of an admission, in order. -/
def mutate (B : TransactionalBackend N σ π τ) (plan : AdmissionPlan N) (payload : π) :
    Exec PyError σ Unit := do
  Exec.forEach plan.evictions (fun eviction => B.remove eviction.key)
  B.remove plan.key
  B.insert plan.key payload plan.role

/-- Write one captured snapshot back. -/
def writeBack (B : TransactionalBackend N σ π τ) (item : CacheKey N × Option τ) :
    Exec PyError σ Unit :=
  match item.2 with
  | some snapshot => B.restore item.1 snapshot
  | none => pure ()

/-- The backend part of a rollback: drop what the affected keys hold now, swallowing
exceptions, then write the captured snapshots back. -/
def rollback (B : TransactionalBackend N σ π τ) (affected : List (CacheKey N))
    (captured : Dict (CacheKey N) (Option τ)) : Exec PyError σ Unit := do
  Exec.forEach affected (fun key => Exec.tryExcept (B.remove key) (fun _ => pure ()))
  Exec.forEach captured.items B.writeBack

/-- The call that forgets a key without a physical drop, when the backend has one. -/
def forget (B : TransactionalBackend N σ π τ) (key : CacheKey N) : Exec PyError σ Unit :=
  match B.forgetRemote with
  | some forget => forget key
  | none => B.remove key

end TransactionalBackend

/-- The keys a plan touches, the admitted one last when it is not evicted itself. -/
def affectedKeys (plan : AdmissionPlan N) : List (CacheKey N) :=
  let evicted := plan.evictions.map Eviction.key
  if plan.key ∈ evicted then evicted else evicted ++ [plan.key]

/-- `_restore_backend_and_policy`. -/
def restoreBackendAndPolicy (B : TransactionalBackend N σ π τ) (policyBefore : PolicySnapshot N)
    (affected : List (CacheKey N)) (captured : Dict (CacheKey N) (Option τ)) :
    Exec PyError (CacheCoordinator N σ) Unit := do
  Exec.modify (fun c => { c with policy := c.policy.restoreState policyBefore })
  onBackend (B.rollback affected captured)

/-- The `try … except` that `admit`, `trim` and `forget_remote` share: mutate the backend,
commit the policy, and on any exception restore both before raising it again. -/
def attempt (B : TransactionalBackend N σ π τ) (policyBefore : PolicySnapshot N)
    (affected : List (CacheKey N)) (captured : Dict (CacheKey N) (Option τ))
    (mutation : Exec PyError σ Unit) (commit : WorkingSetPolicy N → WorkingSetPolicy N) :
    Exec PyError (CacheCoordinator N σ) Unit :=
  Exec.tryExcept
    (do
      onBackend mutation
      Exec.modify (fun c => { c with policy := commit c.policy }))
    (fun e => do
      restoreBackendAndPolicy B policyBefore affected captured
      Exec.raise e)

/-- Snapshot the policy and the affected keys, then attempt the mutation. -/
def transaction (B : TransactionalBackend N σ π τ) (affected : List (CacheKey N))
    (mutation : Exec PyError σ Unit) (commit : WorkingSetPolicy N → WorkingSetPolicy N) :
    Exec PyError (CacheCoordinator N σ) Unit := do
  let policyBefore ← Exec.gets (fun c => c.policy.captureState)
  let captured ← onBackend (B.captureAll affected)
  attempt B policyBefore affected captured mutation commit

/-- `admit`: apply an admission plan as one transaction. -/
def admitPlan (B : TransactionalBackend N σ π τ) (plan : AdmissionPlan N) (payload : π) :
    Exec PyError (CacheCoordinator N σ) Bool :=
  if plan.accepted then do
    transaction B (affectedKeys plan) (B.mutate plan payload) (fun p => p.commit plan)
    pure true
  else pure false

/-- `trim`: apply a trim plan as one transaction. -/
def trim (B : TransactionalBackend N σ π τ) (plan : TrimPlan N) :
    Exec PyError (CacheCoordinator N σ) Bool :=
  if plan.evictions = [] then pure false
  else do
    let affected := plan.evictions.map Eviction.key
    transaction B affected (Exec.forEach affected B.remove) (fun p => p.commitTrim plan)
    pure true

def admitEntry (B : TransactionalBackend N σ π τ) (key : CacheKey N) (payload : π)
    (role : Role) (nbytes : ℤ) (predecessor : Option (CacheKey N)) :
    Exec PyError (CacheCoordinator N σ) Bool := do
  let plan ← Exec.gets (fun c => c.policy.planAdmission key role nbytes predecessor)
  admitPlan B plan payload

def admitStableCandidate (B : TransactionalBackend N σ π τ) (key : CacheKey N) (payload : π)
    (nbytes : ℤ) : Exec PyError (CacheCoordinator N σ) Bool := do
  let plan ← onPolicy (WorkingSetPolicy.planStableCandidate key nbytes)
  admitPlan B plan payload

def observeHit (key : CacheKey N) : Exec PyError (CacheCoordinator N σ) Bool := fun c =>
  let (hit, policy) := c.policy.observeHit key
  (.ok hit, { c with policy := policy })

def trimTo (B : TransactionalBackend N σ π τ) (nSequences nBytes : Option ℤ) :
    Exec PyError (CacheCoordinator N σ) Bool := fun c =>
  match c.policy.planTrim nSequences nBytes with
  | .ok plan => trim B plan c
  | .error e => (.error e, c)

/-- One key of `forget_remote`: a small transaction of its own. -/
def forgetRemoteKey (B : TransactionalBackend N σ π τ) (removed : List (CacheKey N))
    (key : CacheKey N) : Exec PyError (CacheCoordinator N σ) (List (CacheKey N)) := do
  let snapshot ← onBackend (B.capture key)
  match snapshot with
  | none => pure removed
  | some snapshot =>
    let policyBefore ← Exec.gets (fun c => c.policy.captureState)
    attempt B policyBefore [key] (Dict.empty.insert key (some snapshot)) (B.forget key)
      (fun p => p.commitTrim ⟨[⟨key, .remoteEvicted⟩]⟩)
    pure (removed ++ [key])

def forgetRemote (B : TransactionalBackend N σ π τ) (keys : List (CacheKey N)) :
    Exec PyError (CacheCoordinator N σ) (List (CacheKey N)) :=
  Exec.foldEach (forgetRemoteKey B) [] keys

/-! ## What a transaction does to the policy, whatever the backend does -/

section PolicyEffect

variable (B : TransactionalBackend N σ π τ)

/-- Backend calls leave the policy alone. -/
theorem onBackend_policy {N σ α : Type} (m : Exec PyError σ α) (P : WorkingSetPolicy N → Prop) :
    Exec.Triple (fun c => P c.policy) (onBackend m) (fun _ c => P c.policy)
      (fun _ c => P c.policy) := by
  refine Exec.Triple.zoom fun c hc => ?_
  rcases m c.backend with ⟨⟨e⟩ | ⟨a⟩, b⟩ <;> exact hc

/-- A rollback puts the snapshotted policy back even when a backend call raises in it. -/
theorem restoreBackendAndPolicy_policy (p : WorkingSetPolicy N) (affected : List (CacheKey N))
    (captured : Dict (CacheKey N) (Option τ)) :
    Exec.Triple (fun c : CacheCoordinator N σ => c.policy = p)
      (restoreBackendAndPolicy B p.captureState affected captured)
      (fun _ c => c.policy = p) (fun _ c => c.policy = p) := by
  refine Exec.Triple.bind (S := fun _ c => c.policy = p) ?_
    (fun _ => onBackend_policy _ (fun q => q = p))
  refine (Exec.Triple.modify _).pre fun c hc => ?_
  rw [hc]
  exact WorkingSetPolicy.restoreState_captureState p p rfl

/-- An attempt either commits or leaves the policy exactly as it was. -/
theorem attempt_policy (p : WorkingSetPolicy N) (affected : List (CacheKey N))
    (captured : Dict (CacheKey N) (Option τ)) (mutation : Exec PyError σ Unit)
    (commit : WorkingSetPolicy N → WorkingSetPolicy N) :
    Exec.Triple (fun c : CacheCoordinator N σ => c.policy = p)
      (attempt B p.captureState affected captured mutation commit)
      (fun _ c => c.policy = commit p) (fun _ c => c.policy = p) := by
  refine Exec.Triple.tryExcept (E := fun _ c => c.policy = p) ?_ (fun e => ?_)
  · refine Exec.Triple.bind (onBackend_policy _ (fun q => q = p)) fun _ => ?_
    exact (Exec.Triple.modify _).pre fun c hc => congrArg commit hc
  · refine Exec.Triple.bind (restoreBackendAndPolicy_policy B p affected captured) fun _ => ?_
    exact Exec.Triple.fail e

/-- The same for a transaction, which takes its own snapshot of the policy. -/
theorem transaction_policy (p : WorkingSetPolicy N) (affected : List (CacheKey N))
    (mutation : Exec PyError σ Unit) (commit : WorkingSetPolicy N → WorkingSetPolicy N) :
    Exec.Triple (fun c : CacheCoordinator N σ => c.policy = p)
      (transaction B affected mutation commit)
      (fun _ c => c.policy = commit p) (fun _ c => c.policy = p) := by
  intro c hc
  unfold transaction
  rw [Exec.gets_bind_apply, hc]
  refine Exec.Triple.bind (onBackend_policy _ (fun q => q = p)) (fun captured => ?_) c hc
  exact attempt_policy B p affected captured mutation commit

/-- An admission either commits its plan or leaves the policy exactly as it was. -/
theorem admit_policy (plan : AdmissionPlan N) (payload : π) (p : WorkingSetPolicy N) :
    Exec.Triple (fun c : CacheCoordinator N σ => c.policy = p) (admitPlan B plan payload)
      (fun accepted c => accepted = plan.accepted ∧ c.policy = p.commit plan)
      (fun _ c => c.policy = p) := by
  unfold admitPlan
  split
  · rename_i hacc
    refine Exec.Triple.bind (transaction_policy B p _ _ _) fun _ => ?_
    exact (Exec.Triple.pure true).pre fun c hc => ⟨hacc.symm, hc⟩
  · rename_i hacc
    have hacc : plan.accepted = false := by simpa using hacc
    exact (Exec.Triple.pure false).pre
      fun c hc => ⟨hacc.symm, by rw [WorkingSetPolicy.commit_rejected p hacc, hc]⟩

/-- A trim either commits its plan or leaves the policy exactly as it was. -/
theorem trim_policy (plan : TrimPlan N) (p : WorkingSetPolicy N) :
    Exec.Triple (fun c : CacheCoordinator N σ => c.policy = p) (trim B plan)
      (fun _ c => c.policy = p.commitTrim plan) (fun _ c => c.policy = p) := by
  unfold trim
  split
  · rename_i hnil
    refine (Exec.Triple.pure false).pre fun c hc => ?_
    rw [hc, WorkingSetPolicy.commitTrim, hnil, List.foldl_nil]
  · exact Exec.Triple.bind (transaction_policy B p _ _ _) fun _ => Exec.Triple.skip true

/-- What every commit keeps, an admission keeps, whether it returns or raises. -/
theorem admit_invariant {I : WorkingSetPolicy N → Prop} (plan : AdmissionPlan N) (payload : π)
    (c : CacheCoordinator N σ) (h : I c.policy) (hcommit : I (c.policy.commit plan)) :
    I (admitPlan B plan payload c).2.policy := by
  have := admit_policy B plan payload c.policy c rfl
  revert this
  rcases admitPlan B plan payload c with ⟨⟨e⟩ | ⟨b⟩, c'⟩
  · intro hc
    exact hc ▸ h
  · intro hc
    exact hc.2 ▸ hcommit

theorem trim_invariant {I : WorkingSetPolicy N → Prop} (plan : TrimPlan N)
    (c : CacheCoordinator N σ) (h : I c.policy) (hcommit : I (c.policy.commitTrim plan)) :
    I (trim B plan c).2.policy := by
  have := trim_policy B plan c.policy c rfl
  revert this
  rcases trim B plan c with ⟨⟨e⟩ | ⟨b⟩, c'⟩
  · intro hc
    exact hc ▸ h
  · intro hc
    exact hc ▸ hcommit

/-- Forgetting keys is a sequence of trims of one key each. -/
theorem forgetRemote_invariant {I : WorkingSetPolicy N → Prop}
    (hcommit : ∀ p plan, I p → I (p.commitTrim plan)) (keys : List (CacheKey N)) :
    Exec.Triple (fun c : CacheCoordinator N σ => I c.policy) (forgetRemote B keys)
      (fun _ c => I c.policy) (fun _ c => I c.policy) := by
  refine Exec.Triple.foldEach (I := fun _ _ (c : CacheCoordinator N σ) => I c.policy) keys [] [] ?_
  intro _ key _ removed _ _
  refine Exec.Triple.bind (onBackend_policy _ I) fun snapshot => ?_
  cases snapshot with
  | none => exact Exec.Triple.skip removed
  | some snapshot =>
    intro c hc
    have h' : Exec.Triple (fun d : CacheCoordinator N σ => d.policy = c.policy)
        (attempt B c.policy.captureState [key] (Dict.empty.insert key (some snapshot))
          (B.forget key) (fun p => p.commitTrim ⟨[⟨key, .remoteEvicted⟩]⟩))
        (fun _ d => I d.policy) (fun _ d => I d.policy) :=
      (attempt_policy B c.policy _ _ _ _).weaken (fun _ h => h)
        (fun _ _ h => by rw [h]; exact hcommit _ _ hc) (fun _ _ h => by rw [h]; exact hc)
    exact h'.bind (fun _ => Exec.Triple.skip _) c rfl

end PolicyEffect

end StateBraid.Coordinator
