import StateBraid.Coordinator.Plans
import StateBraid.Policy.Counters

/-!
# Factual telemetry

The statistics that the facades report are read from the policy. Over any run, with any
backend, they are what an observer counts who knows the configuration and sees only which
keys are resident, in which role and order of admission, before and after each operation and
what it was offered and replied: nothing that a rollback took back is counted, and nothing is
counted twice.
-/

namespace StateBraid.Coordinator
open Library Policy WorkingSetPolicy

variable {N σ π τ : Type} [DecidableEq N]

/-- `activation_stats` of the MLX facade. -/
structure ActivationStats where
  mode : String
  nSequences : ℕ
  nBytes : ℤ
  pinEvictions : ℕ
  pinQuotaEvictions : ℕ
  activeSuccessorEvictions : ℕ
  stableCandidatePromotions : ℕ
  stableCandidateRejections : ℕ
  deriving DecidableEq

def activationStats (p : WorkingSetPolicy N) : ActivationStats :=
  let snapshot := p.captureState
  { mode := "statebraid"
    nSequences := snapshot.entries.size
    nBytes := snapshot.nbytes
    pinEvictions := snapshot.pinEvictions
    pinQuotaEvictions := snapshot.pinQuotaEvictions
    activeSuccessorEvictions := snapshot.activeSuccessorEvictions
    stableCandidatePromotions := snapshot.stableCandidatePromotions
    stableCandidateRejections := snapshot.stableCandidateRejections }

/-- `stats_by_type`: the sequences and the bytes of each role. -/
def statsByType (p : WorkingSetPolicy N) : Dict Role (ℕ × ℤ) :=
  p.captureState.entries.values.foldl (fun result entry =>
    let stats := (result.get? entry.role).getD (0, 0)
    result.insert entry.role (stats.1 + 1, stats.2 + entry.nbytes)) .empty

/-! ## What an observer counts -/

/-- What an operation displaces by the rules of the admission it makes. -/
def displacedIn (p : WorkingSetPolicy N) : Operation N π → Displaced N
  | .admitEntry key _ role _ predecessor => p.displacedBy key role predecessor
  | .admitStableCandidate key _ _ => p.displacedBy key "stable" none
  | _ => .nothing

/-- The incumbents that a stable candidate took the lane from. -/
def promoted (p q : WorkingSetPolicy N) : Operation N π → ℕ
  | .admitStableCandidate key _ _ => (p.departed q ∩ (p.displacedBy key "stable" none).rotated).card
  | _ => 0

/-- Whether a stable candidate that could be admitted was refused. -/
def refused (p : WorkingSetPolicy N) (reply : Except PyError (Reply N)) : Operation N π → ℕ
  | .admitStableCandidate _ _ nbytes =>
    match reply with
    | .ok (.flag false) => if p.Admissible nbytes then 1 else 0
    | _ => 0
  | _ => 0

/-- What a call adds to a counter, for one who knows its operation, its reply and the residents
before and after. -/
def counted (B : TransactionalBackend N σ π τ) (call : CacheCoordinator N σ × Operation N π) :
    Counter → ℕ :=
  let before := call.1.policy
  let after := (stepOperation B call.1 call.2).policy
  fun
  | .promotions => promoted before after call.2
  | .rejections => refused before (perform B call.2 call.1).1 call.2
  | counter => before.worth after (displacedIn before call.2) counter

/-! ## One operation -/

section Step

variable {B : TransactionalBackend N σ π τ} {c : CacheCoordinator N σ}

theorem step_admitEntry (h : c.policy.Regular) (key : CacheKey N) (payload : π) (role : Role)
    (nbytes : ℤ) (predecessor : Option (CacheKey N)) (counter : Counter) :
    let op := Operation.admitEntry key payload role nbytes predecessor
    (stepOperation B c op).policy.counter counter =
      c.policy.counter counter + counted B (c, op) counter := by
  intro op
  have hcounted : counted B (c, op) counter =
      c.policy.worth (stepOperation B c op).policy (c.policy.displacedBy key role predecessor)
        counter := by
    cases counter <;> rfl
  rw [hcounted, stepOperation, perform, replyWith_state, admitEntry, Exec.gets_bind_apply]
  refine admitPlan_cases (P := fun q => q.counter counter = c.policy.counter counter +
    c.policy.worth q (c.policy.displacedBy key role predecessor) counter) B _ payload c ?_ ?_
  · rw [worth_of_keys _ rfl, Nat.add_zero]
  · intro hacc
    have hplain : ¬ (c.policy.planAdmission key role nbytes predecessor).Promotes := by
      have hreason := c.policy.planAdmission_reason key role nbytes predecessor
      rintro ⟨-, hpromotes | hpromotes⟩ <;> rw [hpromotes] at hreason <;> cases hreason
    rw [h.commit_counter hacc rfl, if_neg fun hboth => hplain hboth.2, Nat.add_zero]

/-- An admission that returns has committed its plan and replies whether it was accepted; one
that raises leaves the policy as it was. -/
theorem admitPlan_result (plan : AdmissionPlan N) (payload : π) (c : CacheCoordinator N σ) :
    (∃ e c', admitPlan B plan payload c = (.error e, c') ∧ c'.policy = c.policy ∧
      plan.accepted = true) ∨
      ∃ c', admitPlan B plan payload c = (.ok plan.accepted, c') ∧
        c'.policy = c.policy.commit plan := by
  have hpolicy := admit_policy B plan payload c.policy c rfl
  rcases hrun : admitPlan B plan payload c with ⟨⟨e⟩ | ⟨accepted⟩, c'⟩ <;> rw [hrun] at hpolicy
  · refine Or.inl ⟨e, c', rfl, hpolicy, ?_⟩
    by_contra hrefused
    rw [admitPlan, if_neg hrefused] at hrun
    cases hrun
  · obtain ⟨rfl, hcommit⟩ := hpolicy
    exact Or.inr ⟨c', rfl, hcommit⟩

/-- What a stable candidate counts when the policy ends as `r` and the reply is this. -/
theorem counted_candidate {key : CacheKey N} {payload : π} {nbytes : ℤ} {r : WorkingSetPolicy N}
    {reply : Except PyError (Reply N)}
    (hreply : (perform B (.admitStableCandidate key payload nbytes) c).1 = reply)
    (hpolicy : (stepOperation B c (.admitStableCandidate key payload nbytes)).policy = r)
    (counter : Counter) :
    counted B (c, .admitStableCandidate key payload nbytes) counter =
      c.policy.worth r (c.policy.displacedBy key "stable" none) counter +
        (if counter = .promotions then
          (c.policy.departed r ∩ (c.policy.displacedBy key "stable" none).rotated).card else 0) +
        if counter = .rejections then
          refused c.policy reply (Operation.admitStableCandidate key payload nbytes) else 0 := by
  subst hreply hpolicy
  cases counter <;> simp [counted, worth, promoted, displacedIn]

theorem step_admitStableCandidate (h : c.policy.Regular) (key : CacheKey N) (payload : π)
    (nbytes : ℤ) (counter : Counter) :
    let op := Operation.admitStableCandidate key payload nbytes
    (stepOperation B c op).policy.counter counter =
      c.policy.counter counter + counted B (c, op) counter := by
  intro op
  have hsame := c.policy.planStableCandidate_sameResidents key nbytes
  rcases hplan : planStableCandidate key nbytes c.policy with ⟨⟨e⟩ | ⟨plan⟩, q⟩
  · obtain ⟨plan, hout⟩ := Regular.candidate_outcome h key nbytes
    have hplanned := hout.planned
    rw [hplan] at hplanned
    cases hplanned
  rw [hplan] at hsame
  dsimp only at hsame
  have hcandidacy := h.candidacy hplan
  have hkeys : q.entries.keys = c.policy.entries.keys := by rw [hsame.entries]
  have hperform : perform B op c =
      replyWith .flag (admitPlan B plan payload) { c with policy := q } := by
    change replyWith .flag (admitStableCandidate B key payload nbytes) c = _
    unfold replyWith
    rw [Exec.bind_apply, Exec.bind_apply, admitStableCandidate_apply, hplan]
  rcases admitPlan_result (B := B) plan payload { c with policy := q } with
    ⟨e, c', hrun, hkeep, hacc⟩ | ⟨c', hrun, hcommit⟩
  · -- raised: the probation stays advanced, and nothing is counted
    have hend : perform B op c = (.error e, c') := by
      rw [hperform, replyWith, Exec.bind_of_error hrun]
    have hplain : plan.reason ≠ .stableProbation := fun heq =>
      Bool.false_ne_true ((hcandidacy.probation.mp heq).1.symm.trans hacc)
    have hpolicy : (stepOperation B c op).policy = q := by rw [stepOperation, hend, hkeep]
    rw [counted_candidate (congrArg Prod.fst hend) hpolicy, hpolicy, hcandidacy.counters,
      worth_of_keys _ hkeys, departed_of_keys hkeys]
    simp [hplain, refused]
  · have hend : perform B op c = (.ok (.flag plan.accepted), c') := by
      rw [hperform, replyWith, Exec.bind_of_ok hrun]
      rfl
    have hpolicy : (stepOperation B c op).policy = q.commit plan := by
      rw [stepOperation, hend, hcommit]
    rw [counted_candidate (congrArg Prod.fst hend) hpolicy, hpolicy]
    by_cases hacc : plan.accepted = true
    · have hplain : plan.reason ≠ .stableProbation := fun heq =>
        Bool.false_ne_true ((hcandidacy.probation.mp heq).1.symm.trans hacc)
      have hq := h.congr hsame
      obtain ⟨reason, -, hstable⟩ := planStableCandidate_accepted hplan hacc
      have hlane : q.rotated key "stable" = c.policy.rotated key "stable" := by
        unfold rotated keysForRole
        rw [hsame.buckets]
      have hgone := hq.card_rotated hacc hstable
      have hdeparted : q.departed (q.commit plan) = c.policy.departed (q.commit plan) := by
        rw [departed, departed, residents, hkeys]
        rfl
      rw [displacedBy_congr hsame, hdeparted, hlane] at hgone
      rw [hq.commit_counter hacc hstable, hcandidacy.counters, worth_congr hsame,
        displacedBy_congr hsame, hgone]
      simp only [hplain, and_false, if_false, Nat.add_zero, hcandidacy.promotes hacc, refused, hacc]
      by_cases hpromotion : counter = .promotions
      · simp [hpromotion, Nat.add_assoc]
      · simp [hpromotion]
    · have hrefused : plan.accepted = false := by simpa using hacc
      rw [commit_rejected _ hrefused, hcandidacy.counters, worth_of_keys _ hkeys,
        departed_of_keys hkeys]
      simp only [hcandidacy.probation, hrefused, refused]
      by_cases hrejection : counter = .rejections
      · simp [hrejection]
      · simp [hrejection]

/-- A policy that only lost residents, by no rule of an admission. -/
theorem step_shrinks {op : Operation N π} (hop : ∀ p, displacedIn p op = .nothing)
    (hquiet : ∀ p q reply, promoted p q op = 0 ∧ refused p reply op = 0)
    (h : Shrinks c.policy (stepOperation B c op).policy) (counter : Counter) :
    (stepOperation B c op).policy.counter counter =
      c.policy.counter counter + counted B (c, op) counter := by
  rw [h.counter counter]
  have hcounted : counted B (c, op) counter =
      c.policy.worth (stepOperation B c op).policy .nothing counter := by
    cases counter with
    | promotions => exact (hquiet _ _ (perform B op c).1).1
    | rejections => exact (hquiet c.policy c.policy _).2
    | pins | quotaPins | successors => rw [← hop c.policy]; rfl
  rw [hcounted]

theorem step_counter (h : c.policy.Regular) (op : Operation N π) (counter : Counter) :
    (stepOperation B c op).policy.counter counter =
      c.policy.counter counter + counted B (c, op) counter := by
  cases op with
  | admitEntry key payload role nbytes predecessor =>
    exact step_admitEntry h key payload role nbytes predecessor counter
  | admitStableCandidate key payload nbytes =>
    exact step_admitStableCandidate h key payload nbytes counter
  | observeHit key =>
    have hpolicy : (stepOperation B c (Operation.observeHit (π := π) key)).policy =
        (c.policy.observeHit key).2 := by
      rw [stepOperation, perform, replyWith_state]
      rfl
    have hkeys := observeHit_tableKeys c.policy key
    rw [← hpolicy] at hkeys
    have hcounted : counted B (c, Operation.observeHit (π := π) key) counter = 0 := by
      cases counter with
      | promotions | rejections => rfl
      | pins => exact worth_of_keys .nothing hkeys .pins
      | quotaPins => exact worth_of_keys .nothing hkeys .quotaPins
      | successors => exact worth_of_keys .nothing hkeys .successors
    rw [hcounted, hpolicy, WorkingSetPolicy.observeHit]
    split <;> cases counter <;> rfl
  | trimTo nSequences nBytes =>
    refine step_shrinks (fun _ => rfl) (fun _ _ _ => ⟨rfl, rfl⟩) ?_ counter
    rw [stepOperation, perform, replyWith_state, trimTo]
    split
    · exact trim_invariant B _ c (.refl _) (shrinks_commitTrim _ _)
    · exact .refl _
  | forgetRemote keys =>
    refine step_shrinks (fun _ => rfl) (fun _ _ _ => ⟨rfl, rfl⟩) ?_ counter
    rw [stepOperation, perform, replyWith_state]
    have hforget := forgetRemote_invariant B (I := Shrinks c.policy)
      (fun p plan hp => hp.trans (p.shrinks_commitTrim plan)) keys c (.refl _)
    revert hforget
    rcases forgetRemote B keys c with ⟨⟨e⟩ | ⟨removed⟩, c'⟩ <;> exact id

end Step

/-! ## The statistics by role -/

/-- The loop adds up the entries of each role, over what was there before. -/
theorem foldl_stats {N : Type} (role : Role) (entries : List (EntryState N))
    (result : Dict Role (ℕ × ℤ)) :
    (entries.foldl (fun result entry =>
        let stats := (result.get? entry.role).getD (0, 0)
        result.insert entry.role (stats.1 + 1, stats.2 + entry.nbytes)) result).get? role =
      let own := entries.filter (fun entry => entry.role = role)
      let start := (result.get? role).getD (0, 0)
      if own = [] then result.get? role
      else some (start.1 + own.length, start.2 + (own.map EntryState.nbytes).sum) := by
  induction entries generalizing result with
  | nil => simp
  | cons entry entries ih =>
    rw [List.foldl_cons, ih]
    dsimp only
    by_cases hrole : entry.role = role
    · subst hrole
      rw [Dict.get?_insert, if_pos rfl, Option.getD_some, List.filter_cons_of_pos (by simp),
        if_neg (List.cons_ne_nil _ _)]
      split_ifs with hown
      · simp [hown]
      · simp only [List.length_cons, List.map_cons, List.sum_cons, Option.some.injEq, Prod.mk.injEq]
        exact ⟨by omega, by omega⟩
    · rw [Dict.get?_insert, if_neg (Ne.symm hrole), List.filter_cons_of_neg (by simpa)]

/-- The lane of a role lists the residents that are counted under it. -/
theorem statsByType_get? {p : WorkingSetPolicy N} (h : p.Chronological) (role : Role) :
    (statsByType p).get? role = if p.keysForRole role = [] then none
      else some ((p.keysForRole role).length, ((p.keysForRole role).map p.heldBytes).sum) := by
  have hcopy : p.captureState.entries.values = p.entries.values := by
    have hid : (copyEntry : EntryState N → EntryState N) = fun e => e := rfl
    rw [captureState, hid, Dict.mapValues_id]
  have hlane : p.keysForRole role =
      (p.entries.items.filter (fun kv => kv.2.role = role)).map Prod.fst := by
    rw [h.chronological, admittedUnder, Dict.keys, List.filter_map]
    congr 1
    refine List.filter_congr fun kv hkv => ?_
    have hget : p.entries.get? kv.1 = some kv.2 := Dict.get?_eq_some_iff.mpr hkv
    simp [roleOf, hget]
  have hown : p.entries.values.filter (fun entry => entry.role = role) =
      (p.entries.items.filter (fun kv => kv.2.role = role)).map Prod.snd := by
    rw [Dict.values, List.filter_map]
    rfl
  have hbytes : (p.keysForRole role).map p.heldBytes =
      (p.entries.values.filter (fun entry => entry.role = role)).map EntryState.nbytes := by
    rw [hlane, hown, List.map_map, List.map_map]
    refine List.map_congr_left fun kv hkv => ?_
    exact heldBytes_of_get? (Dict.get?_eq_some_iff.mpr (List.mem_filter.mp hkv).1)
  have hlength : (p.keysForRole role).length =
      (p.entries.values.filter (fun entry => entry.role = role)).length := by
    rw [hlane, hown, List.length_map, List.length_map]
  have hnil : p.keysForRole role = [] ↔
      p.entries.values.filter (fun entry => entry.role = role) = [] := by
    rw [← List.length_eq_zero_iff, hlength, List.length_eq_zero_iff]
  rw [statsByType, hcopy, foldl_stats, hbytes, hlength]
  simp [hnil]

/-! ## Runs -/

/-- Whatever the backend does and wherever it raises, after any run the statistics are facts:
the residents and their bytes, and for each counter the sum of what its calls added, read off
the configuration, the residents before and after each call in their order, and its reply. By
role, they are the residents of each lane and their bytes. -/
theorem telemetry_is_factual (config : PolicyConfig) (B : TransactionalBackend N σ π τ) (b : σ)
    (ops : List (Operation N π)) :
    let p := policyAfter B config b ops
    let total := fun counter =>
      ((Run.stages (stepOperation B) ⟨.new config, b⟩ ops).map fun call =>
        counted B call counter).sum
    activationStats p =
      { mode := "statebraid"
        nSequences := p.residents.card
        nBytes := p.bytesOf p.residents
        pinEvictions := total .pins
        pinQuotaEvictions := total .quotaPins
        activeSuccessorEvictions := total .successors
        stableCandidatePromotions := total .promotions
        stableCandidateRejections := total .rejections } ∧
      ∀ role, (statsByType p).get? role = if p.keysForRole role = [] then none
        else some ((p.keysForRole role).length, ((p.keysForRole role).map p.heldBytes).sum) := by
  intro p total
  have h : p.Regular := policyAfter_regular B config b ops
  have hcounter (counter : Counter) : p.counter counter = total counter := by
    have hmeasure := Run.foldl_measure (I := fun c : CacheCoordinator N σ => c.policy.Regular)
      (m := fun c => c.policy.counter counter) (w := fun call => counted B call counter)
      (fun c op hc => regular_invariant.step B c op hc) (fun c op hc => step_counter hc op counter)
      ops ⟨.new config, b⟩ (.new config)
    have hzero : (WorkingSetPolicy.new config : WorkingSetPolicy N).counter counter = 0 := by
      cases counter <;> rfl
    exact hmeasure.trans (by rw [hzero, Nat.zero_add])
  refine ⟨?_, statsByType_get? h.toChronological⟩
  have hsize : (p.entries.mapValues copyEntry).size = p.residents.card := by
    rw [residents, List.toFinset_card_of_nodup p.entries.keys_nodup, Dict.length_keys]
    simp [Dict.size, Dict.mapValues]
  rw [← hcounter, ← hcounter, ← hcounter, ← hcounter, ← hcounter, bytesOf_residents, ← h.total,
    ← hsize]
  rfl

end StateBraid.Coordinator
