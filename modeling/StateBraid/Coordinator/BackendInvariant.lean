import StateBraid.Coordinator.Operations

/-!
# Invariants of the backend

What every single call of a backend keeps, every operation of the coordinator keeps,
whichever calls raise and however often, in the middle of a rollback too. An insertion
keeps the invariant for payloads that fit their key, and a restore for snapshots that a
capture may return.
-/

namespace StateBraid.Coordinator
open Library Policy

variable {N σ π τ : Type}

/-- An invariant of the backend's state, call by call. -/
structure BackendInvariant (B : TransactionalBackend N σ π τ) (I : σ → Prop)
    (fits : CacheKey N → π → Prop) (sound : CacheKey N → τ → Prop) : Prop where
  capture : ∀ k, Exec.Triple I (B.capture k) (fun t b => (∀ s, t = some s → sound k s) ∧ I b)
    (fun _ => I)
  restore : ∀ k s, sound k s → Exec.Keeps I (B.restore k s)
  remove : ∀ k, Exec.Keeps I (B.remove k)
  insert : ∀ k x r, fits k x → Exec.Keeps I (B.insert k x r)
  forget : ∀ k, Exec.Keeps I (B.forget k)

/-- The payload an operation offers fits the key it is offered for. -/
def Operation.Offers (fits : CacheKey N → π → Prop) : Operation N π → Prop
  | .admitEntry key payload _ _ _ => fits key payload
  | .admitStableCandidate key payload _ => fits key payload
  | _ => True

namespace BackendInvariant

variable {B : TransactionalBackend N σ π τ} {I : σ → Prop}
variable {fits : CacheKey N → π → Prop} {sound : CacheKey N → τ → Prop}

/-- Every captured snapshot may be restored. -/
def Captured (sound : CacheKey N → τ → Prop) (captured : Dict (CacheKey N) (Option τ)) : Prop :=
  ∀ item ∈ captured.items, ∀ s, item.2 = some s → sound item.1 s

theorem mutate (h : BackendInvariant B I fits sound) (plan : AdmissionPlan N) (payload : π)
    (hfits : fits plan.key payload) : Exec.Keeps I (B.mutate plan payload) := by
  refine (Exec.Keeps.forEach fun eviction _ => h.remove eviction.key).bind fun _ => ?_
  exact (h.remove plan.key).bind fun _ => h.insert plan.key payload plan.role hfits

theorem rollback (h : BackendInvariant B I fits sound) (affected : List (CacheKey N))
    {captured : Dict (CacheKey N) (Option τ)} (hcaptured : Captured sound captured) :
    Exec.Keeps I (B.rollback affected captured) := by
  refine Exec.Keeps.bind (Exec.Keeps.forEach fun key _ => ?_) fun _ => ?_
  · exact (h.remove key).tryExcept fun _ => Exec.Keeps.pure ()
  · refine Exec.Keeps.forEach fun item hitem => ?_
    unfold TransactionalBackend.writeBack
    split
    · rename_i snapshot hsnapshot
      exact h.restore item.1 snapshot (hcaptured item hitem snapshot hsnapshot)
    · exact Exec.Keeps.pure ()

/-- A computation of the backend that keeps the invariant, seen from the coordinator. -/
theorem onBackend_keeps {α : Type} {m : Exec PyError σ α} (hm : Exec.Keeps I m) :
    Exec.Keeps (fun c : CacheCoordinator N σ => I c.backend) (onBackend m) :=
  Exec.Triple.zoom fun c hc => hm c.backend hc

variable [DecidableEq N]

theorem captured_insert {captured : Dict (CacheKey N) (Option τ)} {k : CacheKey N} {t : Option τ}
    (h : Captured sound captured) (ht : ∀ s, t = some s → sound k s) :
    Captured sound (captured.insert k t) := by
  rintro item hitem s hs
  rcases Dict.mem_items_insert.mp hitem with heq | ⟨hmem, -⟩
  · subst heq
    exact ht s hs
  · exact h item hmem s hs

theorem captureAll (h : BackendInvariant B I fits sound) (affected : List (CacheKey N)) :
    Exec.Triple I (B.captureAll affected) (fun captured b => Captured sound captured ∧ I b)
      (fun _ => I) := by
  have hloop := Exec.Triple.foldEach (R := fun _ => I)
    (I := fun _ captured b => Captured sound captured ∧ I b)
    (f := fun captured key => do
      let snapshot ← B.capture key
      pure (captured.insert key snapshot)) affected [] .empty
    (fun _ key _ captured _ _ => ?_)
  · refine hloop.weaken (fun _ hb => ⟨fun item hmem => absurd hmem List.not_mem_nil, hb⟩) ?_
      (fun _ _ he => he)
    exact fun _ _ hq => hq
  · intro b hb
    refine Exec.Triple.bind (h.capture key) (fun snapshot => ?_) b hb.2
    exact (Exec.Triple.pure _).pre fun b' hb' => ⟨captured_insert hb.1 hb'.1, hb'.2⟩

theorem attempt (h : BackendInvariant B I fits sound) (policyBefore : PolicySnapshot N)
    (affected : List (CacheKey N)) {captured : Dict (CacheKey N) (Option τ)}
    (hcaptured : Captured sound captured) {mutation : Exec PyError σ Unit}
    (hmutation : Exec.Keeps I mutation) (commit : WorkingSetPolicy N → WorkingSetPolicy N) :
    Exec.Keeps (fun c => I c.backend)
      (Coordinator.attempt B policyBefore affected captured mutation commit) := by
  refine Exec.Keeps.tryExcept ?_ fun e => ?_
  · exact (onBackend_keeps hmutation).bind fun _ => Exec.Keeps.modify fun _ hc => hc
  · refine Exec.Keeps.bind ?_ fun _ => Exec.Keeps.raise e
    refine Exec.Keeps.bind (Exec.Keeps.modify fun _ hc => hc) fun _ => ?_
    exact onBackend_keeps (h.rollback affected hcaptured)

theorem transaction (h : BackendInvariant B I fits sound) (affected : List (CacheKey N))
    {mutation : Exec PyError σ Unit} (hmutation : Exec.Keeps I mutation)
    (commit : WorkingSetPolicy N → WorkingSetPolicy N) :
    Exec.Keeps (fun c => I c.backend) (Coordinator.transaction B affected mutation commit) := by
  refine Exec.Keeps.bind (Exec.Keeps.gets _) fun policyBefore => ?_
  have hcapture : Exec.Triple (fun c : CacheCoordinator N σ => I c.backend)
      (onBackend (B.captureAll affected))
      (fun captured c => Captured sound captured ∧ I c.backend) (fun _ c => I c.backend) :=
    Exec.Triple.zoom fun c hc => h.captureAll affected c.backend hc
  refine Exec.Triple.bind hcapture fun captured c hc => ?_
  exact h.attempt policyBefore affected hc.1 hmutation commit c hc.2

theorem admitPlan (h : BackendInvariant B I fits sound) (plan : AdmissionPlan N) (payload : π)
    (hfits : plan.accepted = true → fits plan.key payload) :
    Exec.Keeps (fun c => I c.backend) (Coordinator.admitPlan B plan payload) := by
  unfold Coordinator.admitPlan
  split
  · rename_i haccepted
    exact (h.transaction _ (h.mutate plan payload (hfits haccepted)) _).bind
      fun _ => Exec.Keeps.pure true
  · exact Exec.Keeps.pure false

theorem trim (h : BackendInvariant B I fits sound) (plan : TrimPlan N) :
    Exec.Keeps (fun c => I c.backend) (Coordinator.trim B plan) := by
  unfold Coordinator.trim
  split
  · exact Exec.Keeps.pure false
  · refine (h.transaction _ (Exec.Keeps.forEach fun key _ => h.remove key) _).bind fun _ => ?_
    exact Exec.Keeps.pure true

theorem forgetRemote (h : BackendInvariant B I fits sound) (keys : List (CacheKey N)) :
    Exec.Keeps (fun c => I c.backend) (Coordinator.forgetRemote B keys) := by
  refine Exec.Keeps.foldEach [] fun key _ removed => ?_
  have hcapture : Exec.Triple (fun c : CacheCoordinator N σ => I c.backend)
      (onBackend (B.capture key))
      (fun t c => (∀ s, t = some s → sound key s) ∧ I c.backend) (fun _ c => I c.backend) :=
    Exec.Triple.zoom fun c hc => h.capture key c.backend hc
  refine Exec.Triple.bind hcapture fun snapshot c hc => ?_
  cases snapshot with
  | none => exact hc.2
  | some snapshot =>
    have hcaptured : Captured sound (Dict.empty.insert key (some snapshot)) :=
      captured_insert (fun item hmem => absurd hmem List.not_mem_nil) hc.1
    refine Exec.Keeps.bind (Exec.Keeps.gets _) (fun policyBefore => ?_) c hc.2
    exact (h.attempt policyBefore [key] hcaptured (h.forget key) _).bind
      fun _ => Exec.Keeps.pure _

theorem admitEntry (h : BackendInvariant B I fits sound) {key : CacheKey N} {payload : π}
    (hfits : fits key payload) (role : Role) (nbytes : ℤ) (predecessor : Option (CacheKey N)) :
    Exec.Keeps (fun c => I c.backend)
      (Coordinator.admitEntry B key payload role nbytes predecessor) := by
  intro c hc
  refine h.admitPlan _ payload (fun _ => ?_) c hc
  rw [(c.policy.planAdmission_spec key role nbytes predecessor).1]
  exact hfits

theorem admitStableCandidate (h : BackendInvariant B I fits sound) {key : CacheKey N}
    {payload : π} (hfits : fits key payload) (nbytes : ℤ) :
    Exec.Keeps (fun c => I c.backend) (Coordinator.admitStableCandidate B key payload nbytes) := by
  intro c hc
  rw [admitStableCandidate_apply]
  split
  · rename_i plan policy hplan
    refine h.admitPlan plan payload (fun _ => ?_) _ hc
    rw [(WorkingSetPolicy.planStableCandidate_plan hplan).1]
    exact hfits
  · exact hc

theorem trimTo (h : BackendInvariant B I fits sound) (nSequences nBytes : Option ℤ) :
    Exec.Keeps (fun c => I c.backend) (Coordinator.trimTo B nSequences nBytes) := by
  intro c hc
  unfold Coordinator.trimTo
  split
  · exact h.trim _ c hc
  · exact hc

/-- Every operation keeps the invariant, whether it returns or raises. -/
theorem perform (h : BackendInvariant B I fits sound) (op : Operation N π)
    (hoffers : op.Offers fits) :
    Exec.Keeps (fun c => I c.backend) (Coordinator.perform B op) := by
  have hreply {α : Type} (f : α → Reply N) {m : Exec PyError (CacheCoordinator N σ) α}
      (hm : Exec.Keeps (fun c => I c.backend) m) :
      Exec.Keeps (fun c => I c.backend) (replyWith f m) := hm.bind fun a => Exec.Keeps.pure (f a)
  cases op with
  | admitEntry key payload role nbytes predecessor =>
    exact hreply .flag (h.admitEntry hoffers role nbytes predecessor)
  | admitStableCandidate key payload nbytes =>
    exact hreply .flag (h.admitStableCandidate hoffers nbytes)
  | observeHit key => exact hreply .flag fun c hc => hc
  | trimTo nSequences nBytes => exact hreply .flag (h.trimTo nSequences nBytes)
  | forgetRemote keys => exact hreply .keys (h.forgetRemote keys)

end BackendInvariant

end StateBraid.Coordinator
