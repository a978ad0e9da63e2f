import StateBraid.Library.Threads
import StateBraid.Coordinator.FaultyMap

/-!
# The coordinator under threads

The methods of the coordinator as code under its reentrant lock: each call of the
backend or the policy is a step of its own, and another thread may move between any
two. What the policy does in one call, such as a commit or a restore of its snapshot, is
one step. `admit_entry` holds the lock when it calls `admit`, which takes it again. Run
alone, each code is the operation of `Coordinator.Transaction`.
-/

namespace StateBraid.Coordinator
open Library Policy

variable {N σ π τ α β γ : Type}

/-! ## Backend calls, one at a time -/

@[simp] theorem onBackend_pure (a : α) :
    (onBackend (pure a) : Exec PyError (CacheCoordinator N σ) α) = pure a := rfl

@[simp] theorem onBackend_bind (m : Exec PyError σ α) (f : α → Exec PyError σ β) :
    (onBackend (m >>= f) : Exec PyError (CacheCoordinator N σ) β) =
      onBackend m >>= fun a => onBackend (f a) := by
  funext c
  simp only [onBackend, Exec.zoom, Exec.bind_apply]
  rcases m c.backend with ⟨⟨e⟩ | ⟨a⟩, b⟩ <;> rfl

@[simp] theorem onBackend_tryExcept (m : Exec PyError σ α) (handler : PyError → Exec PyError σ α) :
    (onBackend (Exec.tryExcept m handler) : Exec PyError (CacheCoordinator N σ) α) =
      Exec.tryExcept (onBackend m) fun e => onBackend (handler e) := by
  funext c
  simp only [onBackend, Exec.zoom, Exec.tryExcept]
  rcases m c.backend with ⟨⟨e⟩ | ⟨a⟩, b⟩ <;> rfl

@[simp] theorem onBackend_foldEach (f : γ → β → Exec PyError σ γ) (acc : γ) (xs : List β) :
    (onBackend (Exec.foldEach f acc xs) : Exec PyError (CacheCoordinator N σ) γ) =
      Exec.foldEach (fun acc x => onBackend (f acc x)) acc xs := by
  induction xs generalizing acc with
  | nil => rfl
  | cons x xs ih => simp only [Exec.foldEach, onBackend_bind, ih]

@[simp] theorem onBackend_forEach (xs : List β) (f : β → Exec PyError σ Unit) :
    (onBackend (Exec.forEach xs f) : Exec PyError (CacheCoordinator N σ) Unit) =
      Exec.forEach xs fun x => onBackend (f x) :=
  onBackend_foldEach _ () xs

variable [DecidableEq N]

namespace Threaded

/-- One call of the backend. -/
def call (m : Exec PyError σ α) : Code PyError (CacheCoordinator N σ) α := .atom (onBackend m)

def captureAll (B : TransactionalBackend N σ π τ) (affected : List (CacheKey N)) :
    Code PyError (CacheCoordinator N σ) (Dict (CacheKey N) (Option τ)) :=
  Code.foldEach (fun captured key => do
    let snapshot ← call (B.capture key)
    pure (captured.insert key snapshot)) .empty affected

/-- The backend calls of an admission. -/
def mutate (B : TransactionalBackend N σ π τ) (plan : AdmissionPlan N) (payload : π) :
    Code PyError (CacheCoordinator N σ) Unit := do
  Code.forEach plan.evictions (fun eviction => call (B.remove eviction.key))
  call (B.remove plan.key)
  call (B.insert plan.key payload plan.role)

def restoreBackendAndPolicy (B : TransactionalBackend N σ π τ) (policyBefore : PolicySnapshot N)
    (affected : List (CacheKey N)) (captured : Dict (CacheKey N) (Option τ)) :
    Code PyError (CacheCoordinator N σ) Unit := do
  Code.atom (Exec.modify fun c => { c with policy := c.policy.restoreState policyBefore })
  Code.forEach affected (fun key => (call (B.remove key)).tryExcept fun _ => pure ())
  Code.forEach captured.items (fun item => call (B.writeBack item))

/-- The `try … except` that `admit`, `trim` and `forget_remote` share. -/
def attempt (B : TransactionalBackend N σ π τ) (policyBefore : PolicySnapshot N)
    (affected : List (CacheKey N)) (captured : Dict (CacheKey N) (Option τ))
    (mutation : Code PyError (CacheCoordinator N σ) Unit)
    (commit : WorkingSetPolicy N → WorkingSetPolicy N) :
    Code PyError (CacheCoordinator N σ) Unit :=
  Code.tryExcept
    (do
      mutation
      Code.atom (Exec.modify fun c => { c with policy := commit c.policy }))
    (fun e => do
      restoreBackendAndPolicy B policyBefore affected captured
      Code.raise e)

def transaction (B : TransactionalBackend N σ π τ) (affected : List (CacheKey N))
    (mutation : Code PyError (CacheCoordinator N σ) Unit)
    (commit : WorkingSetPolicy N → WorkingSetPolicy N) :
    Code PyError (CacheCoordinator N σ) Unit := do
  let policyBefore ← Code.atom (Exec.gets fun c => c.policy.captureState)
  let captured ← captureAll B affected
  attempt B policyBefore affected captured mutation commit

def admitPlan (B : TransactionalBackend N σ π τ) (plan : AdmissionPlan N) (payload : π) :
    Code PyError (CacheCoordinator N σ) Bool :=
  Code.withLock <|
    if plan.accepted then do
      transaction B (affectedKeys plan) (mutate B plan payload) (fun p => p.commit plan)
      pure true
    else pure false

def trim (B : TransactionalBackend N σ π τ) (plan : TrimPlan N) :
    Code PyError (CacheCoordinator N σ) Bool :=
  Code.withLock <|
    if plan.evictions = [] then pure false
    else do
      let affected := plan.evictions.map Eviction.key
      transaction B affected (Code.forEach affected fun key => call (B.remove key))
        (fun p => p.commitTrim plan)
      pure true

def admitEntry (B : TransactionalBackend N σ π τ) (key : CacheKey N) (payload : π)
    (role : Role) (nbytes : ℤ) (predecessor : Option (CacheKey N)) :
    Code PyError (CacheCoordinator N σ) Bool :=
  Code.withLock do
    let plan ← Code.atom (Exec.gets fun c => c.policy.planAdmission key role nbytes predecessor)
    admitPlan B plan payload

def admitStableCandidate (B : TransactionalBackend N σ π τ) (key : CacheKey N) (payload : π)
    (nbytes : ℤ) : Code PyError (CacheCoordinator N σ) Bool :=
  Code.withLock do
    let plan ← Code.atom (onPolicy (WorkingSetPolicy.planStableCandidate key nbytes))
    admitPlan B plan payload

def observeHit (key : CacheKey N) : Code PyError (CacheCoordinator N σ) Bool :=
  Code.withLock (Code.atom (Coordinator.observeHit key))

def trimTo (B : TransactionalBackend N σ π τ) (nSequences nBytes : Option ℤ) :
    Code PyError (CacheCoordinator N σ) Bool :=
  Code.withLock do
    let plan ← Code.atom
      (Exec.gets (fun c => c.policy.planTrim nSequences nBytes) >>= Exec.ofExcept)
    trim B plan

def forgetRemoteKey (B : TransactionalBackend N σ π τ) (removed : List (CacheKey N))
    (key : CacheKey N) : Code PyError (CacheCoordinator N σ) (List (CacheKey N)) := do
  let snapshot ← call (B.capture key)
  match snapshot with
  | none => pure removed
  | some snapshot =>
    let policyBefore ← Code.atom (Exec.gets fun c => c.policy.captureState)
    attempt B policyBefore [key] (Dict.empty.insert key (some snapshot)) (call (B.forget key))
      (fun p => p.commitTrim ⟨[⟨key, .remoteEvicted⟩]⟩)
    pure (removed ++ [key])

def forgetRemote (B : TransactionalBackend N σ π τ) (keys : List (CacheKey N)) :
    Code PyError (CacheCoordinator N σ) (List (CacheKey N)) :=
  Code.withLock (Code.foldEach (forgetRemoteKey B) [] keys)

end Threaded

/-- A public method of the coordinator with its arguments. `admit` and `trim` take a plan that
the caller made earlier. -/
inductive Method (N π : Type)
  | operation (op : Operation N π)
  | admitPlan (plan : AdmissionPlan N) (payload : π)
  | trim (plan : TrimPlan N)

/-- The method called by a program with one thread. -/
def Method.perform (B : TransactionalBackend N σ π τ) :
    Method N π → Exec PyError (CacheCoordinator N σ) (Reply N)
  | .operation op => Coordinator.perform B op
  | .admitPlan plan payload => replyWith .flag (Coordinator.admitPlan B plan payload)
  | .trim plan => replyWith .flag (Coordinator.trim B plan)

namespace Threaded

def replyWith (f : α → Reply N) (c : Code PyError (CacheCoordinator N σ) α) :
    Code PyError (CacheCoordinator N σ) (Reply N) := do
  let a ← c
  pure (f a)

def perform (B : TransactionalBackend N σ π τ) :
    Operation N π → Code PyError (CacheCoordinator N σ) (Reply N)
  | .admitEntry key payload role nbytes predecessor =>
    replyWith .flag (admitEntry B key payload role nbytes predecessor)
  | .admitStableCandidate key payload nbytes =>
    replyWith .flag (admitStableCandidate B key payload nbytes)
  | .observeHit key => replyWith .flag (observeHit key)
  | .trimTo nSequences nBytes => replyWith .flag (trimTo B nSequences nBytes)
  | .forgetRemote keys => replyWith .keys (forgetRemote B keys)

/-- The code a thread runs for a method. -/
def body (B : TransactionalBackend N σ π τ) :
    Method N π → Code PyError (CacheCoordinator N σ) (Reply N)
  | .operation op => perform B op
  | .admitPlan plan payload => replyWith .flag (admitPlan B plan payload)
  | .trim plan => replyWith .flag (trim B plan)

/-! ## Run alone -/

section Alone

variable (B : TransactionalBackend N σ π τ)

@[simp] theorem run_call {N σ α : Type} (m : Exec PyError σ α) :
    (call m : Code PyError (CacheCoordinator N σ) α).run = onBackend m := rfl

theorem run_captureAll (affected : List (CacheKey N)) :
    (captureAll B affected).run = onBackend (B.captureAll affected) := by
  simp [captureAll, TransactionalBackend.captureAll]

theorem run_mutate {N σ π τ : Type} (B : TransactionalBackend N σ π τ) (plan : AdmissionPlan N)
    (payload : π) :
    (mutate B plan payload).run = onBackend (B.mutate plan payload) := by
  simp [mutate, TransactionalBackend.mutate]

theorem run_restoreBackendAndPolicy (policyBefore : PolicySnapshot N)
    (affected : List (CacheKey N)) (captured : Dict (CacheKey N) (Option τ)) :
    (restoreBackendAndPolicy B policyBefore affected captured).run =
      Coordinator.restoreBackendAndPolicy B policyBefore affected captured := by
  simp [restoreBackendAndPolicy, Coordinator.restoreBackendAndPolicy,
    TransactionalBackend.rollback]

theorem run_attempt (policyBefore : PolicySnapshot N) (affected : List (CacheKey N))
    (captured : Dict (CacheKey N) (Option τ)) {code : Code PyError (CacheCoordinator N σ) Unit}
    {mutation : Exec PyError σ Unit} (hcode : code.run = onBackend mutation)
    (commit : WorkingSetPolicy N → WorkingSetPolicy N) :
    (attempt B policyBefore affected captured code commit).run =
      Coordinator.attempt B policyBefore affected captured mutation commit := by
  simp [attempt, Coordinator.attempt, hcode, run_restoreBackendAndPolicy]

theorem run_transaction (affected : List (CacheKey N))
    {code : Code PyError (CacheCoordinator N σ) Unit} {mutation : Exec PyError σ Unit}
    (hcode : code.run = onBackend mutation) (commit : WorkingSetPolicy N → WorkingSetPolicy N) :
    (transaction B affected code commit).run =
      Coordinator.transaction B affected mutation commit := by
  simp [transaction, Coordinator.transaction, run_captureAll, run_attempt B _ _ _ hcode]

theorem run_admitPlan (plan : AdmissionPlan N) (payload : π) :
    (admitPlan B plan payload).run = Coordinator.admitPlan B plan payload := by
  unfold admitPlan Coordinator.admitPlan
  rw [Code.run_withLock]
  split
  · rw [Code.run_bind, run_transaction B _ (run_mutate B plan payload)]
    rfl
  · rfl

theorem run_trim (plan : TrimPlan N) : (trim B plan).run = Coordinator.trim B plan := by
  unfold trim Coordinator.trim
  rw [Code.run_withLock]
  split
  · rfl
  · have hloop : (Code.forEach (plan.evictions.map Eviction.key) fun key => call (N := N)
        (B.remove key)).run = onBackend (Exec.forEach (plan.evictions.map Eviction.key) B.remove) := by
      simp
    rw [Code.run_bind, run_transaction B _ hloop]
    rfl

theorem run_forgetRemoteKey (removed : List (CacheKey N)) (key : CacheKey N) :
    (forgetRemoteKey B removed key).run = Coordinator.forgetRemoteKey B removed key := by
  unfold forgetRemoteKey Coordinator.forgetRemoteKey
  rw [Code.run_bind, run_call]
  congr 1
  funext snapshot
  cases snapshot with
  | none => rfl
  | some snapshot =>
    simp [run_attempt B _ _ _ (run_call (B.forget key))]

theorem run_replyWith {N σ α : Type} (f : α → Reply N) (c : Code PyError (CacheCoordinator N σ) α) :
    (replyWith f c).run = Coordinator.replyWith f c.run := Code.run_bind c _

theorem run_perform (op : Operation N π) : (perform B op).run = Coordinator.perform B op := by
  cases op with
  | admitEntry key payload role nbytes predecessor =>
    simp only [perform, Coordinator.perform, run_replyWith, admitEntry, Coordinator.admitEntry,
      Code.run_withLock, Code.run_bind, Code.run_atom, run_admitPlan]
  | admitStableCandidate key payload nbytes =>
    simp only [perform, Coordinator.perform, run_replyWith, admitStableCandidate,
      Coordinator.admitStableCandidate, Code.run_withLock, Code.run_bind, Code.run_atom, run_admitPlan]
  | observeHit key =>
    simp only [perform, Coordinator.perform, run_replyWith, observeHit, Code.run_withLock,
      Code.run_atom]
  | trimTo nSequences nBytes =>
    have hrun : (trimTo B nSequences nBytes).run = Coordinator.trimTo B nSequences nBytes := by
      funext c
      simp only [trimTo, Coordinator.trimTo, Code.run_withLock, Code.run_bind, Code.run_atom,
        Exec.bind_apply, Exec.gets_apply, Exec.ofExcept_apply, run_trim]
      cases c.policy.planTrim nSequences nBytes <;> rfl
    simp only [perform, Coordinator.perform, run_replyWith, hrun]
  | forgetRemote keys =>
    simp only [perform, Coordinator.perform, run_replyWith, forgetRemote,
      Coordinator.forgetRemote, Code.run_withLock, Code.run_foldEach, run_forgetRemoteKey]

/-- The code of a method, run with nobody else moving, is the method. -/
theorem run_body (method : Method N π) : (body B method).run = method.perform B := by
  cases method with
  | operation op => exact run_perform B op
  | admitPlan plan payload => simp only [body, Method.perform, run_replyWith, run_admitPlan]
  | trim plan => simp only [body, Method.perform, run_replyWith, run_trim]

end Alone

/-! ## Lock discipline -/

section Discipline

variable (B : TransactionalBackend N σ π τ) (d : ℕ)

theorem inside_call {N σ α : Type} (d : ℕ) (m : Exec PyError σ α) :
    (call m : Code PyError (CacheCoordinator N σ) α).Inside (d + 1) (d + 1) :=
  Code.Inside.atom _ d

theorem inside_captureAll (affected : List (CacheKey N)) :
    (captureAll B affected).Inside (d + 1) (d + 1) :=
  Code.Inside.foldEach (fun _ _ => (inside_call d _).bind fun _ => Code.Inside.pure _ _) _ affected

theorem inside_mutate {N σ π τ : Type} (B : TransactionalBackend N σ π τ) (d : ℕ)
    (plan : AdmissionPlan N) (payload : π) :
    (mutate B plan payload).Inside (d + 1) (d + 1) := by
  refine (Code.Inside.forEach (fun _ => inside_call d _) _).bind fun _ => ?_
  exact (inside_call d _).bind fun _ => inside_call d _

theorem inside_restoreBackendAndPolicy (policyBefore : PolicySnapshot N)
    (affected : List (CacheKey N)) (captured : Dict (CacheKey N) (Option τ)) :
    (restoreBackendAndPolicy B policyBefore affected captured).Inside (d + 1) (d + 1) := by
  refine (Code.Inside.atom _ d).bind fun _ => ?_
  refine (Code.Inside.forEach (fun _ => ?_) _).bind fun _ => ?_
  · exact (inside_call d _).tryExcept fun _ => Code.Inside.pure _ _
  · exact Code.Inside.forEach (fun _ => inside_call d _) _

theorem inside_attempt (policyBefore : PolicySnapshot N) (affected : List (CacheKey N))
    (captured : Dict (CacheKey N) (Option τ)) {code : Code PyError (CacheCoordinator N σ) Unit}
    (hcode : code.Inside (d + 1) (d + 1)) (commit : WorkingSetPolicy N → WorkingSetPolicy N) :
    (attempt B policyBefore affected captured code commit).Inside (d + 1) (d + 1) := by
  refine Code.Inside.tryExcept (hcode.bind fun _ => Code.Inside.atom _ d) fun e => ?_
  exact (inside_restoreBackendAndPolicy B d _ _ _).bind fun _ => Code.Inside.raise e _

theorem inside_transaction (affected : List (CacheKey N))
    {code : Code PyError (CacheCoordinator N σ) Unit} (hcode : code.Inside (d + 1) (d + 1))
    (commit : WorkingSetPolicy N → WorkingSetPolicy N) :
    (transaction B affected code commit).Inside (d + 1) (d + 1) := by
  refine (Code.Inside.atom _ d).bind fun _ => ?_
  exact (inside_captureAll B d affected).bind fun _ => inside_attempt B d _ _ _ hcode commit

/-- What `admit` does under the lock, at any depth. -/
theorem inside_admitPlan_locked (plan : AdmissionPlan N) (payload : π) :
    (if plan.accepted then do
      transaction B (affectedKeys plan) (mutate B plan payload) (fun p => p.commit plan)
      pure true
    else pure false : Code PyError (CacheCoordinator N σ) Bool).Inside (d + 1) (d + 1) := by
  split
  · exact (inside_transaction B d _ (inside_mutate B d plan payload) _).bind
      fun _ => Code.Inside.pure _ _
  · exact Code.Inside.pure _ _

/-- What `trim` does under the lock, at any depth. -/
theorem inside_trim_locked (plan : TrimPlan N) :
    (if plan.evictions = [] then pure false
    else do
      let affected := plan.evictions.map Eviction.key
      transaction B affected (Code.forEach affected fun key => call (B.remove key))
        (fun p => p.commitTrim plan)
      pure true : Code PyError (CacheCoordinator N σ) Bool).Inside (d + 1) (d + 1) := by
  split
  · exact Code.Inside.pure _ _
  · refine (inside_transaction B d _ ?_ _).bind fun _ => Code.Inside.pure _ _
    exact Code.Inside.forEach (fun _ => inside_call d _) _

theorem inside_forgetRemoteKey (removed : List (CacheKey N)) (key : CacheKey N) :
    (forgetRemoteKey B removed key).Inside (d + 1) (d + 1) := by
  refine (inside_call d _).bind fun snapshot => ?_
  cases snapshot with
  | none => exact Code.Inside.pure _ _
  | some snapshot =>
    refine (Code.Inside.atom _ d).bind fun _ => ?_
    exact (inside_attempt B d _ _ _ (inside_call d _) _).bind fun _ => Code.Inside.pure _ _

/-- Reading the result of a critical section needs no lock. -/
theorem critical_replyWith {N σ α : Type} (f : α → Reply N)
    {c : Code PyError (CacheCoordinator N σ) α} (hc : c.Critical) : (replyWith f c).Critical := by
  obtain ⟨next, rfl, hnext⟩ := hc
  refine ⟨_, rfl, hnext.andThen fun r => ?_⟩
  cases r with
  | ok a => rfl
  | error e => rfl

/-- Every public method is one critical section. -/
theorem critical_body (method : Method N π) : (body B method).Critical := by
  cases method with
  | admitPlan plan payload =>
    exact critical_replyWith .flag (.withLock (inside_admitPlan_locked B 0 plan payload))
  | trim plan => exact critical_replyWith .flag (.withLock (inside_trim_locked B 0 plan))
  | operation op =>
    cases op with
    | admitEntry key payload role nbytes predecessor =>
      refine critical_replyWith .flag (.withLock ((Code.Inside.atom _ 0).bind fun plan => ?_))
      exact .withLock (inside_admitPlan_locked B 1 plan payload)
    | admitStableCandidate key payload nbytes =>
      refine critical_replyWith .flag (.withLock ((Code.Inside.atom _ 0).bind fun plan => ?_))
      exact .withLock (inside_admitPlan_locked B 1 plan payload)
    | observeHit key => exact critical_replyWith .flag (.withLock (Code.Inside.atom _ 0))
    | trimTo nSequences nBytes =>
      refine critical_replyWith .flag (.withLock ((Code.Inside.atom _ 0).bind fun plan => ?_))
      exact .withLock (inside_trim_locked B 1 plan)
    | forgetRemote keys =>
      exact critical_replyWith .keys
        (.withLock (Code.Inside.foldEach (inside_forgetRemoteKey B 0) [] keys))

end Discipline

/-! ## The policy between two steps -/

section Steps

variable (B : TransactionalBackend N σ π τ) {I : WorkingSetPolicy N → Prop}

/-- The states whose policy satisfies `I`. -/
abbrev Holding (I : WorkingSetPolicy N → Prop) (c : CacheCoordinator N σ) : Prop := I c.policy

theorem stays_call {N σ α : Type} {I : WorkingSetPolicy N → Prop} (m : Exec PyError σ α) :
    Code.Stays (Holding I) (call (N := N) m) :=
  Code.Stays.atom (onBackend_policy m I)

theorem stays_captureAll (affected : List (CacheKey N)) :
    Code.Stays (Holding I) (captureAll B affected) :=
  Code.Stays.foldEach (fun _ _ => (stays_call _).bind fun _ => Code.Stays.pure _) _ affected

theorem stays_mutate {N σ π τ : Type} (B : TransactionalBackend N σ π τ)
    {I : WorkingSetPolicy N → Prop} (plan : AdmissionPlan N) (payload : π) :
    Code.Stays (Holding I) (mutate B plan payload) := by
  refine (Code.Stays.forEach (fun _ => stays_call _) _).bind fun _ => ?_
  exact (stays_call _).bind fun _ => stays_call _

/-- A rollback of the policy that is in force already. -/
theorem stays_restoreBackendAndPolicy (p : WorkingSetPolicy N) (affected : List (CacheKey N))
    (captured : Dict (CacheKey N) (Option τ)) :
    Code.Stays (Holding (fun q => q = p))
      (restoreBackendAndPolicy B p.captureState affected captured) := by
  refine Code.Stays.bind (Code.Stays.atom (Exec.Keeps.modify fun c hc => ?_)) fun _ => ?_
  · have hp : c.policy = p := hc
    simp only [Holding, hp]
    exact WorkingSetPolicy.restoreState_captureState p p rfl
  · refine (Code.Stays.forEach (fun _ => ?_) _).bind fun _ => ?_
    · exact (stays_call _).tryExcept fun _ => Code.Stays.pure _
    · exact Code.Stays.forEach (fun _ => stays_call _) _

/-- The policy is the old one until the commit, and the old one again after a failure. -/
theorem attempt_along {p : WorkingSetPolicy N} (affected : List (CacheKey N))
    (captured : Dict (CacheKey N) (Option τ)) {code : Code PyError (CacheCoordinator N σ) Unit}
    (hcode : Code.Stays (Holding (fun q => q = p)) code)
    {commit : WorkingSetPolicy N → WorkingSetPolicy N} (hp : I p) (hcommit : I (commit p)) :
    ∀ c : CacheCoordinator N σ, c.policy = p →
      (attempt B p.captureState affected captured code commit).Along (Holding I) c := by
  intro c hc
  have hold : ∀ c : CacheCoordinator N σ, c.policy = p → I c.policy := fun c h => h ▸ hp
  have hmutate : ∀ r c', code.run c = (r, c') → c'.policy = p := by
    intro r c' hrun
    have hfinal := (hcode c hc).final hc
    rwa [hrun] at hfinal
  refine Code.Along.tryExcept (Code.Along.bind ((hcode c hc).mono hold) fun _ c' hrun => ?_)
    fun e c' hrun => ?_
  · exact ⟨by simpa [Holding, hmutate _ c' hrun] using hcommit, trivial⟩
  · have hfailed : c'.policy = p := by
      rw [Code.run_bind] at hrun
      rcases Exec.bind_eq_error hrun with hraised | ⟨_, _, _, hcommitted⟩
      · exact hmutate _ c' hraised
      · cases hcommitted
    refine Code.Along.bind ?_ fun _ _ _ => trivial
    exact (stays_restoreBackendAndPolicy B p affected captured c' hfailed).mono hold

theorem transaction_along {p : WorkingSetPolicy N} (affected : List (CacheKey N))
    {code : Code PyError (CacheCoordinator N σ) Unit}
    (hcode : Code.Stays (Holding (fun q => q = p)) code)
    (commit : WorkingSetPolicy N → WorkingSetPolicy N) (hp : I p) (hcommit : I (commit p))
    {c : CacheCoordinator N σ} (hc : c.policy = p) :
    (transaction B affected code commit).Along (Holding I) c := by
  have hold : ∀ c : CacheCoordinator N σ, c.policy = p → I c.policy := fun c h => h ▸ hp
  refine Code.Along.gets_bind (hold c hc) ?_
  have hcapture := stays_captureAll B (I := fun q => q = p) affected c hc
  refine Code.Along.bind (hcapture.mono hold) fun captured c₂ hrun => ?_
  have hc₂ : c₂.policy = p := by
    have hfinal := hcapture.final hc
    rwa [hrun] at hfinal
  rw [hc]
  exact attempt_along B affected captured hcode hp hcommit c₂ hc₂

theorem admit_along (plan : AdmissionPlan N) (payload : π) {c : CacheCoordinator N σ}
    (h : I c.policy) (hcommit : I (c.policy.commit plan)) :
    (admitPlan B plan payload).Along (Holding I) c := by
  refine Code.Along.withLock ?_
  split
  · refine Code.Along.bind ?_ fun _ _ _ => trivial
    exact transaction_along B _ (stays_mutate B plan payload) (fun p => p.commit plan) h hcommit rfl
  · trivial

theorem trim_along (plan : TrimPlan N) {c : CacheCoordinator N σ}
    (h : I c.policy) (hcommit : I (c.policy.commitTrim plan)) :
    (trim B plan).Along (Holding I) c := by
  refine Code.Along.withLock ?_
  split
  · trivial
  · refine Code.Along.bind ?_ fun _ _ _ => trivial
    exact transaction_along B _ (Code.Stays.forEach (fun _ => stays_call _) _)
      (fun p => p.commitTrim plan) h hcommit rfl

theorem forgetRemoteKey_stays (hI : ∀ p plan, I p → I (p.commitTrim plan))
    (removed : List (CacheKey N)) (key : CacheKey N) :
    Code.Stays (Holding I) (forgetRemoteKey B removed key) := by
  refine (stays_call _).bind fun snapshot => ?_
  cases snapshot with
  | none => exact Code.Stays.pure _
  | some snapshot =>
    intro c hc
    refine Code.Along.gets_bind hc (Code.Along.bind ?_ fun _ _ _ => trivial)
    exact attempt_along B _ _ (stays_call _) hc (hI _ _ hc) c rfl

theorem along_replyWith {N σ α : Type} {I : WorkingSetPolicy N → Prop} (f : α → Reply N)
    {c : Code PyError (CacheCoordinator N σ) α} {s : CacheCoordinator N σ}
    (h : c.Along (Holding I) s) :
    (replyWith f c).Along (Holding I) s := h.bind fun _ _ _ => trivial

/-- An invariant of the policy holds after each step of each operation. -/
theorem perform_stays (hI : PolicyInvariant I) (op : Operation N π) :
    Code.Stays (Holding I) (perform B op) := by
  intro c hc
  cases op with
  | admitEntry key payload role nbytes predecessor =>
    refine along_replyWith .flag (.withLock (Code.Along.gets_bind hc ?_))
    exact admit_along B _ payload hc (hI.planAdmission _ _ _ _ _ hc)
  | admitStableCandidate key payload nbytes =>
    have hprobed := hI.probation c.policy key nbytes hc
    refine along_replyWith .flag
      (.withLock (Code.Along.bind ⟨hprobed, trivial⟩ fun plan c₁ hplan => ?_))
    rcases hrun : WorkingSetPolicy.planStableCandidate key nbytes c.policy with
      ⟨⟨e⟩ | ⟨made⟩, policy⟩
    · simp [onPolicy, Exec.zoom, hrun] at hplan
    · simp only [Code.run_atom, onPolicy, Exec.zoom, hrun, Prod.mk.injEq, Except.ok.injEq] at hplan
      obtain ⟨rfl, rfl⟩ := hplan
      rw [hrun] at hprobed
      exact admit_along B _ payload hprobed (hI.planStable _ _ _ _ _ hc hrun)
  | observeHit key =>
    exact along_replyWith .flag (.withLock ⟨hI.observeHit _ key hc, trivial⟩)
  | trimTo nSequences nBytes =>
    refine along_replyWith .flag (.withLock (Code.Along.bind ⟨?_, trivial⟩ fun plan c₁ hplan => ?_))
    · cases hplan : c.policy.planTrim nSequences nBytes <;> simpa [hplan] using hc
    · cases hmade : c.policy.planTrim nSequences nBytes with
      | error e => simp [hmade] at hplan
      | ok made =>
        simp [hmade] at hplan
        obtain ⟨rfl, rfl⟩ := hplan
        exact trim_along B _ hc (hI.commitTrim _ _ hc)
  | forgetRemote keys =>
    refine along_replyWith .keys (.withLock ?_)
    exact Code.Stays.foldEach (forgetRemoteKey_stays B hI.commitTrim) [] keys c hc

end Steps

end Threaded

/-! ## Any number of threads -/

section Schedules

variable {ι : Type} [DecidableEq ι]

/-- The machine of the coordinator: each thread calls the methods of its list in turn. -/
abbrev Schedule (B : TransactionalBackend N σ π τ) (c : CacheCoordinator N σ)
    (calls : ι → List (Method N π)) :
    Machine ι (Method N π) PyError (CacheCoordinator N σ) (Reply N) → Prop :=
  Run (Machine.step (Threaded.body B)) (fun _ _ => True) (.start c calls)

theorem schedule_refines (B : TransactionalBackend N σ π τ) {c : CacheCoordinator N σ}
    {calls : ι → List (Method N π)}
    {m : Machine ι (Method N π) PyError (CacheCoordinator N σ) (Reply N)}
    (h : Schedule B c calls m) :
    ∃ a, Run (Atomic.step (Method.perform B)) (fun _ _ => True) (.start c calls) a ∧
      Refines (Threaded.body B) m a := by
  have hperform : Method.perform B = fun method => (Threaded.body B method).run :=
    funext fun method => (Threaded.run_body B method).symm
  rw [hperform]
  exact linearizable (Threaded.critical_body B) h

/-- Whatever the schedule, the threads see what they would see if each method took effect at
one instant between its invocation and its response; and whenever the lock is free, the policy
and the backend are what the methods leave when they are called one after the other, in the
order they took effect. -/
theorem concurrent_methods_linearize (B : TransactionalBackend N σ π τ)
    (c : CacheCoordinator N σ) (calls : ι → List (Method N π))
    (m : Machine ι (Method N π) PyError (CacheCoordinator N σ) (Reply N))
    (h : Schedule B c calls m) :
    ∃ a, Run (Atomic.step (Method.perform B)) (fun _ _ => True) (.start c calls) a ∧
      a.history = m.history ∧
      (m.lock = none → m.shared =
        (a.order.map Prod.snd).foldl (fun c method => (method.perform B c).2) c) := by
  obtain ⟨a, ha, hma⟩ := schedule_refines B h
  refine ⟨a, ha, hma.history.symm, fun hlock => ?_⟩
  rw [hma.free hlock]
  exact Atomic.state_eq_fold _ ha

namespace Sample

/-- One thread admits an entry while another trims. -/
def twoCallers : Bool → List (Method String ℕ)
  | true => [.operation (.admitEntry ⟨"m", [1, 2]⟩ 0 "stable" 10 none)]
  | false => [.operation (.trimTo (some 0) none), .operation (.observeHit ⟨"m", [1, 2]⟩)]

/-- Four entries and a hundred bytes over the empty map. -/
def fourEntries : CacheCoordinator String (FaultyMap String ℕ) :=
  ⟨.new (PolicyConfig.new 4 100 ∅ none), .empty⟩

/-- The second thread waits while the first is inside. -/
def contended :
    Machine Bool (Method String ℕ) PyError (CacheCoordinator String (FaultyMap String ℕ))
      (Reply String) :=
  [true, true, false, false, true].foldl (Machine.step (Threaded.body FaultyMap.backend))
    (.start fourEntries twoCallers)

end Sample

theorem two_callers_linearize :
    ∃ a, Run (Atomic.step (Method.perform FaultyMap.backend)) (fun _ _ => True)
        (.start Sample.fourEntries Sample.twoCallers) a ∧
      a.history = Sample.contended.history ∧
      (Sample.contended.lock = none → Sample.contended.shared = (a.order.map Prod.snd).foldl
        (fun c method => (method.perform FaultyMap.backend c).2) Sample.fourEntries) :=
  concurrent_methods_linearize FaultyMap.backend Sample.fourEntries Sample.twoCallers
    Sample.contended (Machine.run_schedule _ _ _)

/-- No schedule runs forever, and a schedule that cannot go on has answered every call of every
thread, in the order of its list, and left the lock free. -/
theorem schedules_complete [Finite ι] (B : TransactionalBackend N σ π τ)
    (c : CacheCoordinator N σ) (calls : ι → List (Method N π)) :
    (WellFounded fun m' m : Machine ι (Method N π) PyError (CacheCoordinator N σ) (Reply N) =>
      ∃ t, Machine.advance (Threaded.body B) m t = some m') ∧
    ∀ m, Schedule B c calls m → (∀ t, Machine.advance (Threaded.body B) m t = none) →
      m.lock = none ∧ ∀ t, responded t m.history = calls t := by
  refine ⟨Machine.advance_wellFounded _, fun m h hstuck => ?_⟩
  obtain ⟨a, -, hma⟩ := schedule_refines B h
  obtain ⟨hfinished, hlock⟩ := hma.no_deadlock (Threaded.critical_body B) hstuck
  refine ⟨hlock, fun t => ?_⟩
  have hcalls := Machine.callsOf_run _ h t
  simpa [Machine.callsOf, (hfinished t).1, (hfinished t).2] using hcalls

theorem two_callers_complete :
    (WellFounded fun m' m : Machine Bool (Method String ℕ) PyError
        (CacheCoordinator String (FaultyMap String ℕ)) (Reply String) =>
      ∃ t, Machine.advance (Threaded.body FaultyMap.backend) m t = some m') ∧
    ∀ m, Schedule FaultyMap.backend Sample.fourEntries Sample.twoCallers m →
      (∀ t, Machine.advance (Threaded.body FaultyMap.backend) m t = none) →
      m.lock = none ∧ ∀ t, responded t m.history = Sample.twoCallers t :=
  schedules_complete FaultyMap.backend Sample.fourEntries Sample.twoCallers

/-- The hard limits hold at every point of every schedule of operations, also between two steps
of an operation under way and of a rollback, as a thread sees them that takes no lock; a commit
of the policy and a restore of it are one step each. -/
theorem limits_between_steps (config : PolicyConfig) (B : TransactionalBackend N σ π τ) (b : σ)
    (calls : ι → List (Operation N π))
    (m : Machine ι (Operation N π) PyError (CacheCoordinator N σ) (Reply N))
    (h : Run (Machine.step (Threaded.perform B)) (fun _ _ => True)
      (.start ⟨.new config, b⟩ calls) m) :
    m.shared.policy.nSequences ≤ config.maxSequences ∧
      m.shared.policy.residentBytes ≤ config.maxBytes := by
  have hcritical : ∀ op, (Threaded.perform B op).Critical := fun op =>
    Threaded.critical_body B (.operation op)
  have hlimits : WorkingSetPolicy.WithinLimits m.shared.policy :=
    always hcritical (fun op => Threaded.perform_stays B withinLimits_invariant op)
      (WorkingSetPolicy.new_withinLimits config) h
  have hconfig : m.shared.policy.config = config :=
    always (I := fun c => c.policy.config = config) hcritical
      (fun op => Threaded.perform_stays B (config_invariant config) op) rfl h
  have hsequences := hlimits.sequences
  have hbytes := hlimits.bytes
  rw [hconfig] at hsequences hbytes
  exact ⟨hsequences, hbytes⟩

/-- One thread admits, the other trims; the first is in the middle of its admission. -/
theorem limits_between_sample_steps :
    ([true, true, false, true, true].foldl
        (Machine.step (Threaded.perform (N := String) (π := ℕ) FaultyMap.backend))
        (.start ⟨.new (PolicyConfig.new 4 100 ∅ none), .empty⟩ fun thread : Bool =>
          if thread then [.admitEntry ⟨"m", [1, 2]⟩ 0 "stable" 10 none]
          else [.trimTo (some 0) none])).shared.policy.nSequences ≤ 4 ∧
      ([true, true, false, true, true].foldl
        (Machine.step (Threaded.perform (N := String) (π := ℕ) FaultyMap.backend))
        (.start ⟨.new (PolicyConfig.new 4 100 ∅ none), .empty⟩ fun thread : Bool =>
          if thread then [.admitEntry ⟨"m", [1, 2]⟩ 0 "stable" 10 none]
          else [.trimTo (some 0) none])).shared.policy.residentBytes ≤ 100 :=
  limits_between_steps (PolicyConfig.new 4 100 ∅ none) FaultyMap.backend .empty _ _
    (Machine.run_schedule _ _ _)

end Schedules

end StateBraid.Coordinator
