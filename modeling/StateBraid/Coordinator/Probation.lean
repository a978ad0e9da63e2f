import StateBraid.Coordinator.PinQuota

/-!
# The evidence for replacing an incumbent

A stable candidate is measured against the stable resident by three fields that outlive
an operation: the candidate, its count, and the hits the incumbent had. What one
operation does to the lane and to these fields is said once, for every backend; the
laws about whole runs are inductions over it.
-/

namespace StateBraid.Coordinator
open Library Policy WorkingSetPolicy

variable {N σ π τ : Type} [DecidableEq N]

/-! ## One operation -/

/-- The probation is as it was, and the incumbent, if there still is one, is the old one
with the hits it had, or with one more. -/
structure LaneKept (op : Operation N π) (p p' : WorkingSetPolicy N) : Prop where
  probation : p'.probation = p.probation
  incumbent : ∀ k e', p'.Incumbent k e' → ∃ e, p.Incumbent k e ∧
    (e'.hits = e.hits ∧ op ≠ .observeHit k ∨ e'.hits = e.hits + 1)

/-- What an operation can do to the stable lane: keep it; refill it by a plain stable
admission; try a candidate, which advances the probation at most; or promote one. -/
inductive LaneStep (op : Operation N π) (p p' : WorkingSetPolicy N) : Prop
  | kept (hop : ∀ key payload nbytes, op ≠ .admitStableCandidate key payload nbytes)
      (h : LaneKept op p p')
  | refilled {key payload nbytes predecessor}
      (hop : op = .admitEntry key payload "stable" nbytes predecessor)
      (hacc : (p.planAdmission key "stable" nbytes predecessor).accepted = true)
      (hprobation : p'.probation = p.probation)
      (hincumbent : ∀ k e, p'.Incumbent k e → k = key ∧ e.hits = 0)
  | tried {key payload nbytes} (hop : op = .admitStableCandidate key payload nbytes)
      (hentries : p'.entries = p.entries)
      (hprobation : p'.probation = p.probation ∨ ∃ current e, p.Incumbent current e ∧
        current ≠ key ∧ p'.probation = (p.advanceProbation key e).probation)
  | promoted {key payload nbytes} (hop : op = .admitStableCandidate key payload nbytes)
      (hfits : nbytes ≤ p.config.maxBytes) (hprobation : p'.probation = (none, 0, 0))
      (hincumbent : ∀ k e, p'.Incumbent k e → k = key ∧ e.hits = 0)

/-- Leaving the policy alone keeps the lane. -/
theorem laneKept_refl {op : Operation N π} (hop : ∀ k, op ≠ .observeHit k)
    (p : WorkingSetPolicy N) : LaneKept op p p :=
  ⟨rfl, fun k e he => ⟨e, he, Or.inl ⟨rfl, hop k⟩⟩⟩

theorem LaneKept.commitTrim {op : Operation N π} {p p' : WorkingSetPolicy N}
    (h : LaneKept op p p') (plan : TrimPlan N) : LaneKept op p (p'.commitTrim plan) :=
  ⟨(commitTrim_probation p' plan).trans h.probation,
    fun k e he => h.incumbent k e (commitTrim_incumbent he)⟩

/-- What is true of a policy and of the commit of a plan is true after the admission of
the plan, whether it returned or raised. -/
theorem admitPlan_cases {P : WorkingSetPolicy N → Prop} (B : TransactionalBackend N σ π τ)
    (plan : AdmissionPlan N) (payload : π) (c : CacheCoordinator N σ) (hkept : P c.policy)
    (hcommit : plan.accepted = true → P (c.policy.commit plan)) :
    P (admitPlan B plan payload c).2.policy := by
  refine admit_invariant B plan payload c hkept ?_
  cases hacc : plan.accepted with
  | false => rwa [commit_rejected _ hacc]
  | true => exact hcommit hacc

/-- An admission refills the lane when it is a stable one and was accepted. -/
theorem admitEntry_lane (B : TransactionalBackend N σ π τ) {c : CacheCoordinator N σ}
    (hlane : c.policy.StableLane) (key : CacheKey N) (payload : π) (role : Role) (nbytes : ℤ)
    (predecessor : Option (CacheKey N)) :
    LaneStep (.admitEntry key payload role nbytes predecessor) c.policy
      (stepOperation B c (.admitEntry key payload role nbytes predecessor)).policy := by
  rw [stepOperation, perform, replyWith_state, admitEntry, Exec.gets_bind_apply]
  refine admitPlan_cases B _ payload c (.kept (by simp) (laneKept_refl (by simp) _)) fun hacc => ?_
  obtain ⟨hkey, hrole, -, -⟩ := c.policy.planAdmission_spec key role nbytes predecessor
  have hincumbent {k : CacheKey N} {e : EntryState N} := commit_incumbent (k := k) (e := e) hacc
    hlane.represents (c.policy.planAdmission_rotates key role nbytes predecessor)
  have hprobation :
      (c.policy.commit (c.policy.planAdmission key role nbytes predecessor)).probation =
        c.policy.probation := by
    rw [commit_probation _ hacc, planAdmission_reason, if_neg (by simp)]
  rw [hrole, hkey] at hincumbent
  by_cases hstable : role = "stable"
  · subst hstable
    exact .refilled rfl hacc hprobation fun k e he => (hincumbent he).elim (fun h => h.2)
      fun h => absurd rfl h.1
  · exact .kept (by simp) ⟨hprobation, fun k e he => ⟨e, (hincumbent he).elim
      (fun h => absurd h.1 hstable) (fun h => h.2), Or.inl ⟨rfl, by simp⟩⟩⟩

/-- A candidate is tried, and promoted when its plan was accepted. -/
theorem admitStableCandidate_lane (B : TransactionalBackend N σ π τ) {c : CacheCoordinator N σ}
    (hlane : c.policy.StableLane) (key : CacheKey N) (payload : π) (nbytes : ℤ) :
    LaneStep (.admitStableCandidate key payload nbytes) c.policy
      (stepOperation B c (.admitStableCandidate key payload nbytes)).policy := by
  rw [stepOperation, perform, replyWith_state, admitStableCandidate_apply]
  have hsame := c.policy.planStableCandidate_sameResidents key nbytes
  have hprobed := hlane.planStableCandidate_probation key nbytes
  rcases hplan : planStableCandidate key nbytes c.policy with ⟨⟨e⟩ | ⟨plan⟩, q⟩ <;>
    rw [hplan] at hsame hprobed
  · exact .tried rfl hsame.entries hprobed
  · refine admitPlan_cases B plan payload { c with policy := q }
      (.tried rfl hsame.entries hprobed) fun hacc => ?_
    obtain ⟨reason, hreason, rfl⟩ := planStableCandidate_accepted hplan hacc
    obtain ⟨hkey, hrole⟩ := planStableCandidate_plan hplan
    have hadmission : (q.planAdmission key "stable" nbytes none).accepted = true := hacc
    have hfits := (le_max_right 0 nbytes).trans (planAdmission_accepted hadmission).2.2
    rw [hsame.config] at hfits
    refine .promoted rfl hfits ?_ fun k e he => ?_
    · rw [commit_probation _ hacc, if_pos ⟨hrole, hreason⟩]
    · have hnew := commit_incumbent hacc (hlane.congr hsame).represents
        (planStableCandidate_rotates hplan) he
      exact hkey ▸ (hnew.resolve_right fun h => h.1 hrole).2

/-- Every operation makes one of the four steps, whatever the backend does. -/
theorem stepOperation_lane (B : TransactionalBackend N σ π τ) {c : CacheCoordinator N σ}
    (hlane : c.policy.StableLane) (op : Operation N π) :
    LaneStep op c.policy (stepOperation B c op).policy := by
  cases op with
  | admitEntry key payload role nbytes predecessor =>
    exact admitEntry_lane B hlane key payload role nbytes predecessor
  | admitStableCandidate key payload nbytes =>
    exact admitStableCandidate_lane B hlane key payload nbytes
  | observeHit key =>
    rw [stepOperation, perform, replyWith_state]
    refine .kept (by simp) ⟨observeHit_probation c.policy key, fun k e he => ?_⟩
    obtain ⟨e₀, he₀, hhits⟩ := observeHit_incumbent he
    refine ⟨e₀, he₀, ?_⟩
    by_cases hk : k = key
    · exact Or.inr (by rw [hhits, if_pos hk])
    · refine Or.inl ⟨by rw [hhits, if_neg hk], fun hop => hk ?_⟩
      injection hop with hkey
      exact hkey.symm
  | trimTo nSequences nBytes =>
    rw [stepOperation, perform, replyWith_state, trimTo]
    have hkept : LaneKept (.trimTo nSequences nBytes : Operation N π) c.policy c.policy :=
      laneKept_refl (by simp) _
    split
    · exact trim_invariant B _ c (.kept (by simp) hkept) (.kept (by simp) (hkept.commitTrim _))
    · exact .kept (by simp) hkept
  | forgetRemote keys =>
    rw [stepOperation, perform, replyWith_state]
    have hkept : LaneKept (.forgetRemote keys : Operation N π) c.policy c.policy :=
      laneKept_refl (by simp) _
    have hforget := forgetRemote_invariant B
      (I := LaneKept (.forgetRemote keys : Operation N π) c.policy)
      (fun q plan hq => hq.commitTrim plan) keys c hkept
    refine .kept (by simp) ?_
    revert hforget
    rcases forgetRemote B keys c with ⟨⟨e⟩ | ⟨removed⟩, c'⟩ <;> exact id

/-! ## Runs -/

theorem runOperations_append (B : TransactionalBackend N σ π τ) (c : CacheCoordinator N σ)
    (ops : List (Operation N π)) (op : Operation N π) :
    runOperations B c (ops ++ [op]) = stepOperation B (runOperations B c ops) op := by
  rw [runOperations, runOperations, List.foldl_append, List.foldl_cons, List.foldl_nil]

section Runs

variable {B : TransactionalBackend N σ π τ} {config : PolicyConfig} {b : σ}
variable {ops : List (Operation N π)}

/-- The policy after a run from the empty cache. -/
def policyAfter (B : TransactionalBackend N σ π τ) (config : PolicyConfig) (b : σ)
    (ops : List (Operation N π)) : WorkingSetPolicy N :=
  (runOperations B ⟨.new config, b⟩ ops).policy

theorem policyAfter_lane (B : TransactionalBackend N σ π τ) (config : PolicyConfig) (b : σ)
    (ops : List (Operation N π)) : (policyAfter B config b ops).StableLane :=
  stableLane_invariant.run B ⟨.new config, b⟩ ops (.new config)

theorem policyAfter_step (B : TransactionalBackend N σ π τ) (config : PolicyConfig) (b : σ)
    (ops : List (Operation N π)) (op : Operation N π) :
    LaneStep op (policyAfter B config b ops) (policyAfter B config b (ops ++ [op])) := by
  rw [policyAfter, policyAfter, runOperations_append]
  exact stepOperation_lane B (policyAfter_lane B config b ops) op

/-- A plain stable admission that is accepted while a candidate is on probation admits the
candidate itself, or a shorter key when the recorded base is zero, or readmits an incumbent
that has not been hit. -/
def Steady (p : WorkingSetPolicy N) (op : Operation N π) : Prop :=
  ∀ key payload nbytes predecessor, op = .admitEntry key payload "stable" nbytes predecessor →
    (p.planAdmission key "stable" nbytes predecessor).accepted = true →
    ∀ candidate, p.stableCandidateKey = some candidate →
      key = candidate ∨
      p.stableCandidateBaseHits = 0 ∧ key.tokens.length < candidate.tokens.length ∨
      ∃ e, p.Incumbent key e ∧ e.hits = 0

/-- What the fields say of an incumbent other than the candidate `key` whose last call came
after `pre` and before `mid`: it was the incumbent then, and unless its hits exceed the base
it was not hit since; or the base is zero and the candidate is longer, so that it can only
replace the incumbent as the cold larger one. -/
def Measured (B : TransactionalBackend N σ π τ) (config : PolicyConfig) (b : σ)
    (pre mid : List (Operation N π)) (p : WorkingSetPolicy N) (key k : CacheKey N)
    (e : EntryState N) : Prop :=
  ((∃ e₀, (policyAfter B config b pre).Incumbent k e₀) ∧ p.stableCandidateBaseHits ≤ e.hits ∧
      (e.hits ≤ p.stableCandidateBaseHits → .observeHit k ∉ mid)) ∨
    p.stableCandidateBaseHits = 0 ∧ k.tokens.length < key.tokens.length

/-- The last call for the candidate, and what the fields say since. -/
def LastTried (B : TransactionalBackend N σ π τ) (config : PolicyConfig) (b : σ)
    (ops : List (Operation N π)) (key : CacheKey N) : Prop :=
  ∃ pre payload nbytes mid, ops = pre ++ .admitStableCandidate key payload nbytes :: mid ∧
    (∀ payload nbytes, .admitStableCandidate key payload nbytes ∉ mid) ∧
    ∀ k e, (policyAfter B config b ops).Incumbent k e → k ≠ key →
      Measured B config b pre mid (policyAfter B config b ops) key k e

/-- An operation that is no call for the candidate extends the stretch since the last one. -/
theorem LastTried.extend {op : Operation N π} {key : CacheKey N}
    (h : LastTried B config b ops key)
    (hop : ∀ payload nbytes, op ≠ .admitStableCandidate key payload nbytes)
    (hprobation : (policyAfter B config b (ops ++ [op])).probation =
      (policyAfter B config b ops).probation)
    (hincumbent : ∀ k e', (policyAfter B config b (ops ++ [op])).Incumbent k e' → k ≠ key →
      (∃ e, (policyAfter B config b ops).Incumbent k e ∧
        (e'.hits = e.hits ∧ op ≠ .observeHit k ∨ e'.hits = e.hits + 1)) ∨
      (policyAfter B config b ops).stableCandidateBaseHits = 0 ∧
        k.tokens.length < key.tokens.length) :
    LastTried B config b (ops ++ [op]) key := by
  obtain ⟨pre, payload, nbytes, mid, hops, hmid, hmeasured⟩ := h
  have hbase : (policyAfter B config b (ops ++ [op])).stableCandidateBaseHits =
      (policyAfter B config b ops).stableCandidateBaseHits :=
    baseHits_of_probation hprobation
  refine ⟨pre, payload, nbytes, mid ++ [op], by rw [hops]; simp, ?_, fun k e' he' hne => ?_⟩
  · intro payload nbytes hmem
    rcases List.mem_append.mp hmem with hmem | hmem
    · exact hmid payload nbytes hmem
    · exact hop payload nbytes (List.mem_singleton.mp hmem).symm
  · rw [Measured, hbase]
    rcases hincumbent k e' he' hne with ⟨e, he, hhits⟩ | hcold
    · rcases hmeasured k e he hne with ⟨hthen, hle, hquiet⟩ | hcold
      · refine Or.inl ⟨hthen, ?_, fun hbound hmem => ?_⟩
        · rcases hhits with ⟨hhits, -⟩ | hhits <;> omega
        · rcases hhits with ⟨hhits, hop'⟩ | hhits
          · rcases List.mem_append.mp hmem with hmem | hmem
            · exact hquiet (by omega) hmem
            · exact hop' (List.mem_singleton.mp hmem).symm
          · omega
      · exact Or.inr hcold
    · exact Or.inr hcold

/-- A call for the candidate starts a new stretch. -/
theorem LastTried.renew {key : CacheKey N} {payload : π} {nbytes : ℤ}
    (hmeasured : ∀ k e,
      (policyAfter B config b (ops ++ [.admitStableCandidate key payload nbytes])).Incumbent k e →
      k ≠ key → Measured B config b ops []
        (policyAfter B config b (ops ++ [.admitStableCandidate key payload nbytes])) key k e) :
    LastTried B config b (ops ++ [.admitStableCandidate key payload nbytes]) key :=
  ⟨ops, payload, nbytes, [], rfl, fun _ _ => List.not_mem_nil, hmeasured⟩

/-- What one step does to the stretch since the last call. -/
theorem lastTried_step {op : Operation N π} (hsteady : Steady (policyAfter B config b ops) op)
    (ih : ∀ key, (policyAfter B config b ops).stableCandidateKey = some key →
      LastTried B config b ops key) {key : CacheKey N}
    (hkey : (policyAfter B config b (ops ++ [op])).stableCandidateKey = some key) :
    LastTried B config b (ops ++ [op]) key := by
  cases policyAfter_step B config b ops op with
  | kept hop hkept =>
    have hsame := candidateKey_of_probation hkept.probation
    exact (ih key (hsame.symm.trans hkey)).extend (hop key) hkept.probation
      fun k e' he' _ => Or.inl (hkept.incumbent k e' he')
  | refilled hop hacc hprobation hincumbent =>
    have hsame := candidateKey_of_probation hprobation
    have hold := hsame.symm.trans hkey
    refine (ih key hold).extend (by simp [hop]) hprobation fun k e' he' hne => ?_
    obtain ⟨rfl, hhits'⟩ := hincumbent k e' he'
    rcases hsteady _ _ _ _ hop hacc key hold with hself | hcold | ⟨e, he, hhits⟩
    · exact absurd hself hne
    · exact Or.inr hcold
    · exact Or.inl ⟨e, he, Or.inl ⟨hhits'.trans hhits.symm, by simp [hop]⟩⟩
  | @tried tried payload nbytes hop hentries hprobation =>
    subst hop
    have hincumbent {k : CacheKey N} {e : EntryState N} (he : (policyAfter B config b
        (ops ++ [.admitStableCandidate tried payload nbytes])).Incumbent k e) :
        (policyAfter B config b ops).Incumbent k e := ⟨hentries ▸ he.1, he.2⟩
    -- a stretch that the fields still describe starts again at this call
    have hrenew (hlast : LastTried B config b ops tried)
        (hbase : (policyAfter B config b
          (ops ++ [.admitStableCandidate tried payload nbytes])).stableCandidateBaseHits =
            (policyAfter B config b ops).stableCandidateBaseHits) :
        LastTried B config b (ops ++ [.admitStableCandidate tried payload nbytes]) tried := by
      obtain ⟨_, _, _, _, _, _, hmeasured⟩ := hlast
      refine .renew fun k e he hne => ?_
      rw [Measured, hbase]
      exact (hmeasured k e (hincumbent he) hne).imp_left fun h =>
        ⟨⟨e, hincumbent he⟩, h.2.1, fun _ => List.not_mem_nil⟩
    rcases hprobation with hprobation | ⟨current, e, hcurrent, -, hprobation⟩
    · have hsame := candidateKey_of_probation hprobation
      have hlast := ih key (hsame.symm.trans hkey)
      by_cases htried : tried = key
      · subst htried
        exact hrenew hlast (baseHits_of_probation hprobation)
      · refine hlast.extend (by simp [htried]) hprobation fun k e he _ => Or.inl ?_
        exact ⟨e, hincumbent he, Or.inl ⟨rfl, by simp⟩⟩
    · obtain ⟨hcandidate, hbase⟩ := advanceProbation_probation (policyAfter B config b ops) tried e
      have hsame := candidateKey_of_probation hprobation
      have hbase' := baseHits_of_probation hprobation
      obtain rfl : tried = key := Option.some.inj (hcandidate.symm.trans (hsame.symm.trans hkey))
      rcases hbase with hbase | ⟨hold, -, hbase⟩
      · refine .renew fun k e' he' _ => Or.inl ⟨⟨e', hincumbent he'⟩, ?_, fun _ => List.not_mem_nil⟩
        obtain ⟨rfl, rfl⟩ :=
          (policyAfter_lane B config b ops).incumbent_unique hcurrent (hincumbent he')
        exact (hbase'.trans hbase).le
      · exact hrenew (ih tried hold) (hbase'.trans hbase)
  | promoted hop _ hprobation =>
    have hnone := congrArg Prod.fst hprobation
    exact absurd (hnone.symm.trans hkey) (by simp)

/-- Whenever a candidate is on probation, the fields describe its last call. -/
theorem lastTried_run
    (hsteady : ∀ pre op post, ops = pre ++ op :: post → Steady (policyAfter B config b pre) op)
    {key : CacheKey N} (hkey : (policyAfter B config b ops).stableCandidateKey = some key) :
    LastTried B config b ops key := by
  induction ops using List.reverseRecOn generalizing key with
  | nil => simp [policyAfter, runOperations, WorkingSetPolicy.new] at hkey
  | append_singleton ops op ih =>
    refine lastTried_step (hsteady ops op [] rfl) (fun key hkey => ih ?_ hkey) hkey
    intro pre op' post hops
    exact hsteady pre op' (post ++ [op]) (by rw [hops]; simp)

/-- The call of `admit_stable_candidate` for `key` puts it in the place of the resident
`incumbent`, for the reason given. -/
structure Replaces (B : TransactionalBackend N σ π τ) (c : CacheCoordinator N σ)
    (key : CacheKey N) (payload : π) (nbytes : ℤ) (reason : AdmissionReason)
    (incumbent : CacheKey N) : Prop where
  resident : ∃ e, c.policy.Incumbent incumbent e
  other : incumbent ≠ key
  planned : ∃ plan q, planStableCandidate key nbytes c.policy = (.ok plan, q) ∧
    plan.reason = reason
  returned : (admitStableCandidate B key payload nbytes c).1 = .ok true

/-- The last call for `key` found `incumbent` in the lane, and it was not hit since. -/
def ReuseCounted (B : TransactionalBackend N σ π τ) (config : PolicyConfig) (b : σ)
    (ops : List (Operation N π)) (key incumbent : CacheKey N) : Prop :=
  ∃ pre payload nbytes mid, ops = pre ++ .admitStableCandidate key payload nbytes :: mid ∧
    (∀ payload nbytes, .admitStableCandidate key payload nbytes ∉ mid) ∧
    (∃ e, (policyAfter B config b pre).Incumbent incumbent e) ∧ .observeHit incumbent ∉ mid

/-- In a run whose plain stable admissions are steady, a replacement for repeated misses
counts real reuse of the entry it replaces. -/
theorem repeated_miss_counts_reuse
    (hsteady : ∀ pre op post, ops = pre ++ op :: post → Steady (policyAfter B config b pre) op)
    {key incumbent : CacheKey N} {payload : π} {nbytes : ℤ}
    (h : Replaces B (runOperations B ⟨.new config, b⟩ ops) key payload nbytes .stableRepeatedMiss
      incumbent) : ReuseCounted B config b ops key incumbent := by
  obtain ⟨⟨e, he⟩, hother, ⟨plan, q, hplan, hreason⟩, -⟩ := h
  have hlane : (runOperations B ⟨.new config, b⟩ ops).policy.StableLane :=
    policyAfter_lane B config b ops
  rw [hlane.planStableCandidate_of_incumbent he hother] at hplan
  -- the other branches give another reason
  have hnot {plan' : AdmissionPlan N} {q' : WorkingSetPolicy N}
      (hreason' : plan'.reason ≠ .stableRepeatedMiss)
      (hplan : ((.ok plan', q') : Except PyError (AdmissionPlan N) × WorkingSetPolicy N) =
        (.ok plan, q)) : False := by
    obtain ⟨hplan, -⟩ := Prod.mk.inj hplan
    exact hreason' (Except.ok.inj hplan ▸ hreason)
  split_ifs at hplan with hdisabled hcold hcount
  · exact (hnot (fun h => by cases h) hplan).elim
  · exact (hnot (fun h => by cases h) hplan).elim
  · obtain ⟨hcandidate, hbound⟩ := advanceProbation_passes hcount
    obtain ⟨pre, payload', nbytes', mid, hops, hmid, hmeasured⟩ := lastTried_run hsteady hcandidate
    rcases hmeasured incumbent e he hother with ⟨hthen, -, hquiet⟩ | ⟨hbase, hlonger⟩
    · exact ⟨pre, payload', nbytes', mid, hops, hmid, hthen, hquiet hbound⟩
    · -- an unhit shorter incumbent is replaced as the cold larger one
      have hbase : (runOperations B ⟨.new config, b⟩ ops).policy.stableCandidateBaseHits = 0 := hbase
      exact absurd ⟨by omega, hlonger⟩ hcold
  · exact (hnot (fun h => by cases h) hplan).elim

/-! ## A proven incumbent -/

/-- A run of calls for stable candidates and of hits. -/
def OnlyCandidates (ops : List (Operation N π)) : Prop :=
  ∀ op ∈ ops, (∃ key payload nbytes, op = .admitStableCandidate key payload nbytes) ∨
    ∃ key, op = .observeHit key

theorem OnlyCandidates.steady (h : OnlyCandidates ops) (pre : List (Operation N π))
    (op : Operation N π) (post : List (Operation N π)) (hops : ops = pre ++ op :: post) :
    Steady (policyAfter B config b pre) op := by
  intro key payload nbytes predecessor hop
  have hmem : op ∈ ops := by simp [hops]
  rcases h op hmem with ⟨_, _, _, h⟩ | ⟨_, h⟩ <;> rw [hop] at h <;> cases h

/-- A call for `incumbent` that can refresh it, with no hit after it. -/
def Refreshed (config : PolicyConfig) (incumbent : CacheKey N) (ops : List (Operation N π)) :
    Prop :=
  ∃ before payload, ∃ nbytes : ℤ, ∃ after,
    ops = before ++ .admitStableCandidate incumbent payload nbytes :: after ∧
    nbytes ≤ config.maxBytes ∧ .observeHit incumbent ∉ after

theorem Refreshed.extend {N π : Type} {config : PolicyConfig} {ops : List (Operation N π)}
    {incumbent : CacheKey N} (h : Refreshed config incumbent ops) {op : Operation N π}
    (hop : op ≠ .observeHit incumbent) :
    Refreshed config incumbent (ops ++ [op]) := by
  obtain ⟨before, payload, nbytes, after, rfl, hfits, hafter⟩ := h
  refine ⟨before, payload, nbytes, after ++ [op], by simp, hfits, fun hmem => ?_⟩
  rcases List.mem_append.mp hmem with hmem | hmem
  · exact hafter hmem
  · exact hop (List.mem_singleton.mp hmem).symm

/-- What a hit of the incumbent leaves behind: the probation of `key`, if there is one, has a
smaller base, and the hits are gone only after a refresh. -/
def Proven (B : TransactionalBackend N σ π τ) (config : PolicyConfig) (b : σ)
    (pre mid : List (Operation N π)) (key incumbent : CacheKey N) : Prop :=
  ∃ e, (policyAfter B config b (pre ++ mid)).Incumbent incumbent e ∧
    ((policyAfter B config b (pre ++ mid)).stableCandidateKey = some key →
      (policyAfter B config b (pre ++ mid)).stableCandidateBaseHits < e.hits) ∧
    (e.hits = 0 → Refreshed config incumbent mid)

theorem policyAfter_config (B : TransactionalBackend N σ π τ) (config : PolicyConfig) (b : σ)
    (ops : List (Operation N π)) : (policyAfter B config b ops).config = config :=
  (config_invariant config).run B ⟨.new config, b⟩ ops rfl

/-- The hit itself proves the incumbent. -/
theorem proven_of_hit {pre : List (Operation N π)} {key incumbent : CacheKey N}
    (honly : OnlyCandidates pre) (hother : incumbent ≠ key)
    (hthen : ∃ e, (policyAfter B config b pre).Incumbent incumbent e)
    (hnow : ∃ e, (policyAfter B config b (pre ++ [.observeHit incumbent])).Incumbent incumbent e) :
    Proven B config b (pre ++ [.observeHit incumbent]) [] key incumbent := by
  obtain ⟨e₀, he₀⟩ := hthen
  obtain ⟨e, he⟩ := hnow
  unfold Proven
  rw [List.append_nil]
  cases policyAfter_step B config b pre (.observeHit incumbent) with
  | kept _ hkept =>
    obtain ⟨e₁, he₁, hhits⟩ := hkept.incumbent incumbent e he
    obtain ⟨-, rfl⟩ := (policyAfter_lane B config b pre).incumbent_unique he₀ he₁
    have hhits := hhits.resolve_left fun h => h.2 rfl
    refine ⟨e, he, fun hkey => ?_, by omega⟩
    have hsame := candidateKey_of_probation hkept.probation
    have hbase := baseHits_of_probation hkept.probation
    obtain ⟨_, _, _, _, _, _, hmeasured⟩ := lastTried_run honly.steady (hsame.symm.trans hkey)
    refine lt_of_eq_of_lt hbase ?_
    rcases hmeasured incumbent e₀ he₀ hother with ⟨-, hle, -⟩ | ⟨hzero, -⟩
    · exact lt_of_le_of_lt hle (by omega)
    · exact lt_of_eq_of_lt hzero (by omega)
  | refilled hop => cases hop
  | tried hop => cases hop
  | promoted hop => cases hop

/-- An operation that is no call for `key` and leaves the incumbent in place keeps it
proven. -/
theorem Proven.step {pre mid : List (Operation N π)} {key incumbent : CacheKey N}
    (h : Proven B config b pre mid key incumbent) {op : Operation N π}
    (honly : (∃ key payload nbytes, op = .admitStableCandidate key payload nbytes) ∨
      ∃ key, op = .observeHit key)
    (hop : ∀ payload nbytes, op ≠ .admitStableCandidate key payload nbytes)
    (hnow : ∃ e, (policyAfter B config b (pre ++ (mid ++ [op]))).Incumbent incumbent e) :
    Proven B config b pre (mid ++ [op]) key incumbent := by
  obtain ⟨e, he, hbase, hcold⟩ := h
  obtain ⟨e', he'⟩ := hnow
  have hlane := policyAfter_lane B config b (pre ++ mid)
  have hstep := policyAfter_step B config b (pre ++ mid) op
  unfold Proven
  rw [List.append_assoc] at hstep
  refine ⟨e', he', ?_⟩
  cases hstep with
  | kept _ hkept =>
    obtain ⟨e₁, he₁, hhits⟩ := hkept.incumbent incumbent e' he'
    obtain ⟨-, rfl⟩ := hlane.incumbent_unique he he₁
    have hsame := candidateKey_of_probation hkept.probation
    have hbase' := baseHits_of_probation hkept.probation
    refine ⟨fun hkey => lt_of_eq_of_lt hbase' ((hbase (hsame.symm.trans hkey)).trans_le ?_),
      fun hzero => ?_⟩
    · rcases hhits with ⟨hhits, -⟩ | hhits <;> omega
    · rcases hhits with ⟨hhits, hne⟩ | hhits
      · exact (hcold (by omega)).extend hne
      · omega
  | refilled hop' => rcases honly with ⟨_, _, _, h⟩ | ⟨_, h⟩ <;> rw [h] at hop' <;> cases hop'
  | @tried tried _ _ hop' hentries hprobation =>
    have hold : (policyAfter B config b (pre ++ mid)).Incumbent incumbent e' :=
      ⟨hentries ▸ he'.1, he'.2⟩
    obtain ⟨-, rfl⟩ := hlane.incumbent_unique he hold
    refine ⟨fun hkey => ?_, fun hzero => (hcold hzero).extend (by simp [hop'])⟩
    rcases hprobation with hprobation | ⟨current, d, -, -, hprobation⟩
    · have hsame := candidateKey_of_probation hprobation
      have hbase' := baseHits_of_probation hprobation
      exact lt_of_eq_of_lt hbase' (hbase (hsame.symm.trans hkey))
    · have hsame := candidateKey_of_probation hprobation
      have hcandidate :=
        (advanceProbation_probation (policyAfter B config b (pre ++ mid)) tried d).1
      have htried := Option.some.inj (hcandidate.symm.trans (hsame.symm.trans hkey))
      exact absurd hop' (by rw [htried]; exact hop _ _)
  | promoted hop' hfits hprobation hincumbent =>
    obtain ⟨rfl, -⟩ := hincumbent incumbent e' he'
    rw [policyAfter_config] at hfits
    have hnone := congrArg Prod.fst hprobation
    refine ⟨fun hkey => absurd (hnone.symm.trans hkey) (by simp), fun _ => ?_⟩
    exact ⟨mid, _, _, [], by rw [hop'], hfits, List.not_mem_nil⟩

/-- A call whose plan is rejected leaves the policy that planning left. -/
theorem stepOperation_rejected {c : CacheCoordinator N σ} {key : CacheKey N} {payload : π}
    {nbytes : ℤ} {plan : AdmissionPlan N} {q : WorkingSetPolicy N}
    (hplan : planStableCandidate key nbytes c.policy = (.ok plan, q))
    (hrejected : plan.accepted = false) :
    (stepOperation B c (.admitStableCandidate key payload nbytes)).policy = q := by
  rw [stepOperation, perform, replyWith_state, admitStableCandidate_apply, hplan]
  dsimp only
  rw [admitPlan, hrejected]
  rfl

/-- A call for a key that the probation does not pass leaves a proven incumbent in place,
unless the incumbent was refreshed and the key is longer and fits. -/
theorem Proven.stays {pre mid : List (Operation N π)} {key incumbent : CacheKey N}
    (h : Proven B config b pre mid key incumbent) (hother : incumbent ≠ key) (payload : π)
    {nbytes : ℤ} (hcondition : ¬ Refreshed config incumbent mid ∨
      key.tokens.length ≤ incumbent.tokens.length ∨ config.maxBytes < nbytes) :
    ∃ e, (policyAfter B config b
      ((pre ++ mid) ++ [.admitStableCandidate key payload nbytes])).Incumbent incumbent e := by
  obtain ⟨e, he, hbase, hcold⟩ := h
  have hlane := policyAfter_lane B config b (pre ++ mid)
  have hconfig := policyAfter_config B config b (pre ++ mid)
  have hplan := hlane.planStableCandidate_of_incumbent he hother nbytes
  have hsame := (policyAfter B config b (pre ++ mid)).planStableCandidate_sameResidents key nbytes
  refine ⟨e, ?_, he.2⟩
  rw [policyAfter, runOperations_append]
  have hkept {plan : AdmissionPlan N} {q : WorkingSetPolicy N} (hrejected : plan.accepted = false)
      (hplan : planStableCandidate key nbytes (policyAfter B config b (pre ++ mid)) =
        (.ok plan, q)) :
      (stepOperation B (runOperations B ⟨.new config, b⟩ (pre ++ mid))
        (.admitStableCandidate key payload nbytes)).policy.entries.get? incumbent = some e := by
    rw [stepOperation_rejected hplan hrejected]
    rw [hplan] at hsame
    rw [hsame.entries]
    exact he.1
  split_ifs at hplan with hdisabled hlonger hcount
  · exact hkept rfl hplan
  · -- the cold larger branch is excluded
    rw [hconfig] at hdisabled
    rcases hcondition with hfresh | hshort | hlarge
    · exact absurd (hcold hlonger.1) hfresh
    · omega
    · omega
  · obtain ⟨hcandidate, hle⟩ := advanceProbation_passes hcount
    have hlt := hbase hcandidate
    omega
  · exact hkept rfl hplan

/-- In a run of calls for candidates and hits, an incumbent that was hit while it was the
incumbent, and has stayed so, is not replaced by the first call for another key after that
hit, unless it was refreshed after its last hit and the other key is longer and fits. -/
theorem proven_incumbent_stays {pre mid : List (Operation N π)} {key incumbent : CacheKey N}
    (honly : OnlyCandidates (pre ++ .observeHit incumbent :: mid)) (hother : incumbent ≠ key)
    (hthen : ∃ e, (policyAfter B config b pre).Incumbent incumbent e)
    (hstays : ∀ stretch, stretch <+: mid →
      ∃ e, (policyAfter B config b (pre ++ .observeHit incumbent :: stretch)).Incumbent incumbent e)
    (hfirst : ∀ payload nbytes, .admitStableCandidate key payload nbytes ∉ mid) (payload : π)
    {nbytes : ℤ} (hcondition : ¬ Refreshed config incumbent mid ∨
      key.tokens.length ≤ incumbent.tokens.length ∨ config.maxBytes < nbytes) :
    ∃ e, (policyAfter B config b (pre ++ .observeHit incumbent :: mid ++
      [.admitStableCandidate key payload nbytes])).Incumbent incumbent e := by
  have hproven : Proven B config b (pre ++ [.observeHit incumbent]) mid key incumbent := by
    -- along the operations since the hit
    have hprefixes : ∀ stretch, stretch <+: mid →
        Proven B config b (pre ++ [.observeHit incumbent]) stretch key incumbent := by
      intro stretch
      induction stretch using List.reverseRecOn with
      | nil =>
        intro hprefix
        refine proven_of_hit (fun op hop => honly op (by simp [hop])) hother hthen ?_
        exact hstays [] hprefix
      | append_singleton stretch op ih =>
        intro hprefix
        have hmem : op ∈ mid := hprefix.subset (by simp)
        refine (ih ((List.prefix_append _ _).trans hprefix)).step (honly op (by simp [hmem])) ?_ ?_
        · intro payload nbytes hop
          exact hfirst payload nbytes (hop ▸ hmem)
        · simpa using hstays _ hprefix
    exact hprefixes mid (List.prefix_refl mid)
  simpa using hproven.stays hother payload hcondition

end Runs

/-! ## Evidence that outlives its incumbent -/

namespace Sample

def roomy : PolicyConfig := PolicyConfig.new 4 100 ∅ none

/-- A call for the candidate with these tokens. -/
def tryStable (tokens : List ℤ) : Operation String ℤ :=
  .admitStableCandidate ⟨"m", tokens⟩ 0 10

def hit (tokens : List ℤ) : Operation String ℤ := .observeHit ⟨"m", tokens⟩

/-- The entry of a stable resident with this many hits. -/
def stableEntry (tokens : List ℤ) (hits : ℕ) : EntryState String :=
  ⟨⟨"m", tokens⟩, "stable", 10, false, hits⟩

def twoCandidates : List (Operation String ℤ) := [tryStable [1, 2, 3], tryStable [9]]

/-- The same, and then a plain stable admission while the candidate is on probation. -/
def rotatedPlainly : List (Operation String ℤ) :=
  twoCandidates ++ [.admitEntry ⟨"m", [4, 5]⟩ 0 "stable" 10 none]

/-- The policy after a run over the map. -/
abbrev after (ops : List (Operation String ℤ)) : WorkingSetPolicy String :=
  policyAfter FaultyMap.backend roomy .empty ops

end Sample

open Sample

theorem twoCandidates_counts_reuse :
    ReuseCounted FaultyMap.backend roomy .empty twoCandidates ⟨"m", [9]⟩ ⟨"m", [1, 2, 3]⟩ := by
  have honly : OnlyCandidates twoCandidates := by
    simp [OnlyCandidates, twoCandidates, tryStable]
  have hreplaces : Replaces FaultyMap.backend
      (runOperations FaultyMap.backend ⟨.new roomy, .empty⟩ twoCandidates) ⟨"m", [9]⟩ 0 10
      .stableRepeatedMiss ⟨"m", [1, 2, 3]⟩ :=
    ⟨⟨stableEntry [1, 2, 3] 0, by decide +kernel, rfl⟩, by decide,
      ⟨_, _, rfl, by decide +kernel⟩, rfl⟩
  exact repeated_miss_counts_reuse honly.steady hreplaces

/-- The second incumbent is replaced at the first call it sees. -/
theorem rotatedPlainly_counts_no_reuse :
    Replaces FaultyMap.backend
      (runOperations FaultyMap.backend ⟨.new roomy, .empty⟩ rotatedPlainly) ⟨"m", [9]⟩ 0 10
      .stableRepeatedMiss ⟨"m", [4, 5]⟩ ∧
    ¬ ReuseCounted FaultyMap.backend roomy .empty rotatedPlainly ⟨"m", [9]⟩ ⟨"m", [4, 5]⟩ := by
  refine ⟨⟨⟨stableEntry [4, 5] 0, by decide +kernel, rfl⟩, by decide,
    ⟨_, _, rfl, by decide +kernel⟩, rfl⟩, ?_⟩
  rintro ⟨pre, payload, nbytes, mid, hops, -, ⟨e, he⟩, -⟩
  -- the only call for the candidate came before the plain admission
  rcases pre with _ | ⟨first, _ | ⟨second, _ | ⟨third, pre⟩⟩⟩ <;>
    simp [rotatedPlainly, twoCandidates, tryStable] at hops
  obtain ⟨rfl, -⟩ := hops
  have hnone : (after [tryStable [1, 2, 3]]).entries.get? ⟨"m", [4, 5]⟩ = none := by decide +kernel
  exact absurd (he.1.symm.trans hnone) (by simp)

/-- An incumbent that was hit survives the first call for a longer key. -/
theorem hit_incumbent_stays : ∃ e, (after [tryStable [1], hit [1], tryStable [7, 8]]).Incumbent
    ⟨"m", [1]⟩ e := by
  have honly : OnlyCandidates [tryStable [1], hit [1]] := by
    simp [OnlyCandidates, tryStable, hit]
  have hstays : ∀ stretch, stretch <+: ([] : List (Operation String ℤ)) →
      ∃ e, (after ([tryStable [1]] ++ hit [1] :: stretch)).Incumbent ⟨"m", [1]⟩ e := by
    intro stretch hstretch
    obtain rfl := List.prefix_nil.mp hstretch
    exact ⟨stableEntry [1] 1, by decide +kernel, rfl⟩
  have hfresh : ¬ Refreshed roomy (⟨"m", [1]⟩ : CacheKey String) ([] : List (Operation String ℤ)) := by
    rintro ⟨before, payload, nbytes, after, hnil, -⟩
    simp at hnil
  have hthen : ∃ e, (after [tryStable [1]]).Incumbent ⟨"m", [1]⟩ e :=
    ⟨stableEntry [1] 0, by decide +kernel, rfl⟩
  exact proven_incumbent_stays honly (by decide) hthen hstays (by simp) 0 (Or.inl hfresh)

/-- Refreshed by a call for itself, the incumbent is cold again, and is replaced by the first
call for a longer key after its hit. -/
theorem refreshed_incumbent_displaced :
    OnlyCandidates [tryStable [1], hit [1], tryStable [1], tryStable [7, 8]] ∧
    (after [tryStable [1]]).Incumbent ⟨"m", [1]⟩ (stableEntry [1] 0) ∧
    (after [tryStable [1], hit [1]]).Incumbent ⟨"m", [1]⟩ (stableEntry [1] 1) ∧
    (after [tryStable [1], hit [1], tryStable [1]]).Incumbent ⟨"m", [1]⟩ (stableEntry [1] 0) ∧
    (after [tryStable [1], hit [1], tryStable [1], tryStable [7, 8]]).entries.get? ⟨"m", [1]⟩ =
      none ∧
    (after [tryStable [1], hit [1], tryStable [1], tryStable [7, 8]]).Incumbent ⟨"m", [7, 8]⟩
      (stableEntry [7, 8] 0) :=
  ⟨by simp [OnlyCandidates, tryStable, hit], ⟨by decide +kernel, rfl⟩, ⟨by decide +kernel, rfl⟩,
    ⟨by decide +kernel, rfl⟩, by decide +kernel, ⟨by decide +kernel, rfl⟩⟩

end StateBraid.Coordinator
