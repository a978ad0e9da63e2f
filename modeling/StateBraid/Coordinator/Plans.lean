import StateBraid.Coordinator.Probation
import StateBraid.Policy.WorkingSet

/-!
# The plans of reachable policies

Every state of every run keeps its table and its buckets in one order, so that each
resident is found by the loops of the planners. An admission is then refused for nothing
but its size or a disabled cache, its victims and those of a trim are the shortest
sufficient prefix of one order of the residents, and its commit changes what it says.
-/

namespace StateBraid.Coordinator
open Library Policy WorkingSetPolicy

variable {N σ π τ : Type} [DecidableEq N]

theorem regular_invariant : PolicyInvariant (Regular (N := N)) where
  planAdmission _ key role nbytes predecessor h := h.planAdmission key role nbytes predecessor
  planStable _ _ _ _ _ h hplan := h.planStable hplan
  probation p key nbytes h := h.congr (p.planStableCandidate_sameResidents key nbytes)
  commitTrim _ plan h := h.commitTrim plan
  observeHit _ key h := h.observeHit key

theorem policyAfter_regular (B : TransactionalBackend N σ π τ) (config : PolicyConfig) (b : σ)
    (ops : List (Operation N π)) : (policyAfter B config b ops).Regular :=
  regular_invariant.run B ⟨.new config, b⟩ ops (.new config)

/-! ## Which admissions are accepted -/

/-- The outcome of planning a stable candidate: there is one, it is a refusal where nothing
of this size is admitted, and elsewhere a refusal is a probation. -/
structure CandidateOutcome (p : WorkingSetPolicy N) (key : CacheKey N) (nbytes : ℤ)
    (plan : AdmissionPlan N) : Prop where
  planned : (planStableCandidate key nbytes p).1 = .ok plan
  refused : ¬ p.Admissible nbytes → plan.accepted = false
  probation : p.Admissible nbytes → plan.accepted = false → plan.reason = .stableProbation
  spares : plan.accepted = false → plan.evictions = []

/-- An admission planned for a candidate has the outcome of a plain stable one. -/
theorem planStable_outcome {p q : WorkingSetPolicy N} (h : q.Chronological)
    (hconfig : q.config = p.config) {key : CacheKey N} {nbytes : ℤ} {reason : AdmissionReason}
    (hplan : (planStableCandidate key nbytes p).1 = .ok (q.planStable key nbytes reason))
    (hroom : p.Admissible nbytes) :
    CandidateOutcome p key nbytes (q.planStable key nbytes reason) := by
  have hacc : (q.planStable key nbytes reason).accepted = true :=
    (h.planAdmission_accepted_iff key "stable" nbytes none).mpr (by rwa [Admissible, hconfig])
  exact ⟨hplan, fun hnot => absurd hroom hnot, fun _ hrefused => by simp [hacc] at hrefused,
    fun hrefused => by simp [hacc] at hrefused⟩

theorem Regular.candidate_outcome {p : WorkingSetPolicy N} (h : p.Regular) (key : CacheKey N)
    (nbytes : ℤ) : ∃ plan, CandidateOutcome p key nbytes plan := by
  have hdisabled : (p.config.maxSequences ≤ 0 ∨ p.config.maxBytes ≤ 0 ∨
      nbytes > p.config.maxBytes) ↔ ¬ p.Admissible nbytes := by
    unfold Admissible
    omega
  by_cases hroom : p.Admissible nbytes
  · have hon := mt hdisabled.mp (not_not.mpr hroom)
    have hout := p.planStableCandidate_outcome key nbytes
    have hself := h.toChronological
    generalize hresult : planStableCandidate key nbytes p = result at hout
    have hplan {plan : AdmissionPlan N} {q : WorkingSetPolicy N} (hresult' : result = (.ok plan, q)) :
        (planStableCandidate key nbytes p).1 = .ok plan := by rw [hresult, hresult']
    cases hout with
    | disabled hdis => exact absurd hdis hon
    | empty | refresh | coldLarger => exact ⟨_, planStable_outcome hself rfl (hplan rfl) hroom⟩
    | dangling hhead hnone =>
      have hmem := h.toRepresents.mem_keys (List.mem_of_mem_head? hhead)
      exact absurd hmem (Dict.get?_eq_none_iff.mp hnone)
    | repeatedMiss =>
      have hsame := p.planStableCandidate_sameResidents key nbytes
      rw [hresult] at hsame
      exact ⟨_, planStable_outcome (hself.congr hsame) hsame.config (hplan rfl) hroom⟩
    | probation => exact ⟨_, hplan rfl, fun _ => rfl, fun _ _ => rfl, fun _ => rfl⟩
  · refine ⟨⟨false, key, "stable", nbytes, [], .oversizedOrDisabled⟩, ?_, fun _ => rfl,
      fun hyes => absurd hyes hroom, fun _ => rfl⟩
    rw [planStableCandidate, if_pos (hdisabled.mpr hroom)]

/-- In every state of every run the planners end, and an admission is accepted exactly when
the limits leave room for the entry alone. -/
theorem run_admits_all_that_fits (config : PolicyConfig) (B : TransactionalBackend N σ π τ) (b : σ)
    (ops : List (Operation N π)) (key : CacheKey N) (role : Role) (nbytes : ℤ)
    (predecessor : Option (CacheKey N)) :
    let p := policyAfter B config b ops
    let plan := p.planAdmission key role nbytes predecessor
    (plan.accepted = true ↔
      0 < config.maxSequences ∧ 0 < config.maxBytes ∧ max 0 nbytes ≤ config.maxBytes) ∧
    (∀ fuel, p.orderedKeys.length ≤ fuel → plan.accepted = true →
      p.capacityLoop key (max 0 nbytes)
        (p.protectedKeys key role (max 0 nbytes) (p.priorEvictions key role predecessor)) fuel
        (p.priorEvictions key role predecessor) = (plan.evictions, true)) ∧
    plan.reason ≠ .cannotFit ∧ (plan.accepted = false → plan.evictions = []) ∧
    ∃ candidate, CandidateOutcome p key nbytes candidate := by
  intro p plan
  have h : p.Regular := policyAfter_regular B config b ops
  have hconfig : p.config = config := policyAfter_config B config b ops
  have hiff : plan.accepted = true ↔ p.Admissible nbytes :=
    h.planAdmission_accepted_iff key role nbytes predecessor
  refine ⟨?_, fun fuel hfuel hacc => ?_, ?_, fun hrefused => ?_, Regular.candidate_outcome h key nbytes⟩
  · rw [hiff, Admissible, hconfig]
  · exact h.capacityLoop_terminates (hiff.mp hacc) key role predecessor hfuel
  · by_cases hroom : p.Admissible nbytes
    · obtain ⟨taken, htaken⟩ := h.exists_takes hroom key role predecessor
      have hplan : plan = _ := h.planAdmission_eq hroom htaken
      simp [hplan]
    · obtain ⟨reason, hreason, hplan⟩ := planAdmission_refused hroom key role predecessor
      rw [show plan = _ from hplan]
      rcases hreason with rfl | rfl <;> simp
  · have hroom : ¬ p.Admissible nbytes := fun hroom => by simp [hiff.mpr hroom] at hrefused
    obtain ⟨reason, -, hplan⟩ := planAdmission_refused hroom key role predecessor
    rw [show plan = _ from hplan]

/-! ## Which residents a plan takes -/

/-- Every plan takes the shortest sufficient prefix of an order of the residents. -/
structure SelectsShortest (p : WorkingSetPolicy N) (order : List (CacheKey N)) : Prop where
  admission : ∀ key role nbytes predecessor,
    (p.planAdmission key role nbytes predecessor).accepted = true →
      ShortestPrefix
        (fun u => p.RoomFor key (max 0 nbytes) (evictedOtherwise .capacity
          (p.planAdmission key role nbytes predecessor).evictions ∪ u.toFinset))
        (p.admissionQueue order key role (max 0 nbytes) (evictedOtherwise .capacity
          (p.planAdmission key role nbytes predecessor).evictions))
        (evictedFor .capacity (p.planAdmission key role nbytes predecessor).evictions)
  refusal : ∀ key role nbytes predecessor,
    (p.planAdmission key role nbytes predecessor).accepted = false →
      (p.planAdmission key role nbytes predecessor).evictions = []
  trim : ∀ nSequences nBytes, ∃ plan, p.planTrim nSequences nBytes = .ok plan ∧
    p.TrimsShortest order (p.trimTargets nSequences nBytes) plan ∧
    (p.commitTrim plan).planTrim nSequences nBytes = .ok ⟨[]⟩

/-- In every state of every run there is exactly one order of the residents by rank, bucket
and admission, and it is the one in which victims are taken. -/
theorem run_selects_shortest_prefix (config : PolicyConfig) (B : TransactionalBackend N σ π τ)
    (b : σ) (ops : List (Operation N π)) :
    ∃! order, (policyAfter B config b ops).VictimOrder order ∧
      SelectsShortest (policyAfter B config b ops) order := by
  have h := policyAfter_regular B config b ops
  generalize policyAfter B config b ops = p at h
  have horder := h.victimOrder
  refine ⟨p.orderedKeys, ⟨horder, ?_⟩, fun order hother => hother.1.unique horder⟩
  constructor
  case admission =>
    intro key role nbytes predecessor hacc
    exact h.capacity_shortest (planAdmission_accepted hacc) key role predecessor
  case refusal =>
    intro key role nbytes predecessor hrefused
    have hroom : ¬ p.Admissible nbytes := fun hroom => by
      have hacc := (h.planAdmission_accepted_iff key role nbytes predecessor).mpr hroom
      simp [hacc] at hrefused
    obtain ⟨reason, -, hplan⟩ := planAdmission_refused hroom key role predecessor
    rw [hplan]
  case trim => exact h.planTrim_shortest

/-! ## What an accepted plan does -/

/-- In every state of every run an accepted plan evicts each key once and only what its
rules allow, and its commit does what the plan says. -/
theorem run_evicts_properly_and_commits_exactly (config : PolicyConfig)
    (B : TransactionalBackend N σ π τ) (b : σ) (ops : List (Operation N π)) {key : CacheKey N}
    {role : Role} {nbytes : ℤ} {predecessor : Option (CacheKey N)} {plan : AdmissionPlan N}
    (hplan : (policyAfter B config b ops).planAdmission key role nbytes predecessor = plan)
    (hacc : plan.accepted = true) :
    (policyAfter B config b ops).EvictsProperly key role predecessor plan.evictions ∧
      (policyAfter B config b ops).CommitsExactly ((policyAfter B config b ops).commit plan) key
        role (max 0 nbytes) plan.evictions := by
  subst hplan
  have h := policyAfter_regular B config b ops
  exact ⟨h.evictsProperly hacc, h.commitsExactly hacc⟩

namespace Sample

/-- Three sequences, nothing pinned. -/
def threeSequences : PolicyConfig := PolicyConfig.new 3 100 ∅ none

def admitBranch (tokens : List ℤ) : Operation String ℤ :=
  .admitEntry ⟨"m", tokens⟩ 0 "active" 10 none

end Sample

open Sample

/-- An active branch that extends a resident one compacts it. -/
theorem run_commits_successor :
    (policyAfter FaultyMap.backend threeSequences .empty [admitBranch [1]]).CommitsExactly
      ((policyAfter FaultyMap.backend threeSequences .empty [admitBranch [1]]).commit
        ⟨true, ⟨"m", [1, 2]⟩, "active", 20, [⟨⟨"m", [1]⟩, .activeSuccessor⟩], .admitted⟩)
      ⟨"m", [1, 2]⟩ "active" (max 0 20) [⟨⟨"m", [1]⟩, .activeSuccessor⟩] :=
  have hplan : (policyAfter FaultyMap.backend threeSequences .empty
      [admitBranch [1]]).planAdmission ⟨"m", [1, 2]⟩ "active" 20 (some ⟨"m", [1]⟩) =
      ⟨true, ⟨"m", [1, 2]⟩, "active", 20, [⟨⟨"m", [1]⟩, .activeSuccessor⟩], .admitted⟩ := by
    decide +kernel
  (run_evicts_properly_and_commits_exactly threeSequences FaultyMap.backend .empty
    [admitBranch [1]] hplan rfl).2

end StateBraid.Coordinator
