import StateBraid.Coordinator.FaultyMap

/-!
# What a failed operation leaves behind

An admission or a trim that raises leaves the map and the whole policy as they were,
and one that returns false made no changing call at all. Admitting a stable candidate
is different: its planning advances the probation before the snapshot is taken, so a
failure in the branch that promotes a repeated miss keeps the advanced count.
-/

namespace StateBraid.Coordinator
open Library Policy WorkingSetPolicy

variable {N σ π τ : Type} [DecidableEq N]

/-- An admission that returns false was rejected before any backend call. -/
theorem admit_false {B : TransactionalBackend N σ π τ} {plan : AdmissionPlan N} {payload : π}
    {c c' : CacheCoordinator N σ} (h : admitPlan B plan payload c = (.ok false, c')) :
    plan.accepted = false ∧ c' = c := by
  unfold admitPlan at h
  split at h
  · obtain ⟨_, _, _, hreturn⟩ := Exec.bind_eq_ok h
    simp at hreturn
  · rename_i hacc
    rw [Exec.pure_apply, Prod.mk.injEq] at h
    exact ⟨by simpa using hacc, h.2.symm⟩

/-- A trim that returns false had no victim. -/
theorem trim_false {B : TransactionalBackend N σ π τ} {plan : TrimPlan N}
    {c c' : CacheCoordinator N σ} (h : trim B plan c = (.ok false, c')) : c' = c := by
  unfold trim at h
  split at h
  · rw [Exec.pure_apply, Prod.mk.injEq] at h
    exact h.2.symm
  · obtain ⟨_, _, _, hreturn⟩ := Exec.bind_eq_ok h
    simp at hreturn

theorem admit_error {plan : AdmissionPlan N} {payload : π} {e : PyError}
    {c c' : CacheCoordinator N (FaultyMap N π)}
    (h : admitPlan FaultyMap.backend plan payload c = (.error e, c')) :
    plan.accepted = true ∧ c'.policy = c.policy ∧ c'.backend.values = c.backend.values := by
  obtain ⟨hpolicy, -, hvalues⟩ := (FaultyMap.mapBackend.toMapBackend.admit_spec plan payload
    trivial (fun _ _ => trivial) (fun _ _ _ _ => trivial)).error ⟨rfl, trivial, rfl⟩ h
  refine ⟨?_, hpolicy, hvalues⟩
  by_contra hacc
  simp [admitPlan, hacc] at h

theorem trim_error {plan : TrimPlan N} {e : PyError} {c c' : CacheCoordinator N (FaultyMap N π)}
    (h : trim FaultyMap.backend plan c = (.error e, c')) :
    c'.policy = c.policy ∧ c'.backend.values = c.backend.values := by
  obtain ⟨hpolicy, -, hvalues⟩ := (FaultyMap.mapBackend.toMapBackend.trim_spec plan
    (fun _ _ => trivial) (fun _ _ _ _ => trivial)).error ⟨rfl, trivial, rfl⟩ h
  exact ⟨hpolicy, hvalues⟩

/-- In every state, whatever fault is ahead, an admission or a trim that raises changes
neither the map nor the policy, and one that returns false changes nothing and has made
no call that could. -/
theorem admission_and_trim_atomic (c : CacheCoordinator N (FaultyMap N π)) :
    (∀ key payload role nbytes predecessor e c',
      admitEntry FaultyMap.backend key payload role nbytes predecessor c = (.error e, c') →
        c'.policy = c.policy ∧ c'.backend.values = c.backend.values) ∧
    (∀ nSequences nBytes e c',
      trimTo FaultyMap.backend nSequences nBytes c = (.error e, c') →
        c'.policy = c.policy ∧ c'.backend.values = c.backend.values) ∧
    (∀ key payload role nbytes predecessor c',
      admitEntry FaultyMap.backend key payload role nbytes predecessor c = (.ok false, c') →
        c' = c) ∧
    ∀ nSequences nBytes c',
      trimTo FaultyMap.backend nSequences nBytes c = (.ok false, c') → c' = c := by
  refine ⟨?_, ?_, ?_, ?_⟩
  · intro key payload role nbytes predecessor e c' h
    rw [admitEntry, Exec.gets_bind_apply] at h
    exact (admit_error h).2
  · intro nSequences nBytes e c' h
    unfold trimTo at h
    split at h
    · exact trim_error h
    · cases h
      exact ⟨rfl, rfl⟩
  · intro key payload role nbytes predecessor c' h
    rw [admitEntry, Exec.gets_bind_apply] at h
    exact (admit_false h).2
  · intro nSequences nBytes c' h
    unfold trimTo at h
    split at h
    · exact trim_false h
    · cases h

/-! ## Stable candidates -/

/-- The state in which a stable candidate misses for at least the second time: the
incumbent is neither the candidate nor cold and shorter, the candidate is the one under
probation, and the incumbent had no hit since its first miss. -/
def repeatsMiss (p : WorkingSetPolicy N) (key : CacheKey N) : Prop :=
  ∃ currentKey ∈ (p.keysForRole "stable").head?, ∃ current ∈ p.entries.get? currentKey,
    currentKey ≠ key ∧ ¬ (current.hits = 0 ∧ key.tokens.length > currentKey.tokens.length) ∧
      p.stableCandidateKey = some key ∧ current.hits ≤ p.stableCandidateBaseHits ∧
      1 ≤ p.stableCandidateCount

instance (p : WorkingSetPolicy N) (key : CacheKey N) : Decidable (repeatsMiss p key) :=
  inferInstanceAs (Decidable (∃ currentKey ∈ (p.keysForRole "stable").head?,
    ∃ current ∈ p.entries.get? currentKey, _))

theorem advanceProbation_repeated {p : WorkingSetPolicy N} {key : CacheKey N}
    {current : EntryState N} :
    (p.advanceProbation key current).stableCandidateCount ≥ 2 ↔
      p.stableCandidateKey = some key ∧ current.hits ≤ p.stableCandidateBaseHits ∧
        1 ≤ p.stableCandidateCount := by
  unfold advanceProbation
  split_ifs with hkey hhits <;> simp [hkey] <;> omega

/-- A second miss changes the policy: the observation count moves on. -/
theorem advanceProbation_ne {p : WorkingSetPolicy N} {key : CacheKey N} {current : EntryState N}
    (h : (p.advanceProbation key current).stableCandidateCount ≥ 2) :
    p.advanceProbation key current ≠ p := by
  obtain ⟨hkey, hhits, -⟩ := advanceProbation_repeated.mp h
  intro heq
  have hcount := congrArg stableCandidateCount heq
  rw [advanceProbation, if_pos hkey, if_neg (by omega)] at hcount
  simp at hcount

theorem repeatsMiss_iff {p : WorkingSetPolicy N} {key currentKey : CacheKey N}
    {rest : List (CacheKey N)} {current : EntryState N}
    (hkeys : p.keysForRole "stable" = currentKey :: rest)
    (hcurrent : p.entries.get? currentKey = some current) :
    repeatsMiss p key ↔ currentKey ≠ key ∧
      ¬ (current.hits = 0 ∧ key.tokens.length > currentKey.tokens.length) ∧
      (p.advanceProbation key current).stableCandidateCount ≥ 2 := by
  unfold repeatsMiss
  simp only [hkeys, List.head?_cons, Option.mem_def, Option.some.injEq, exists_eq_left', hcurrent,
    advanceProbation_repeated]

/-- Planning an accepted stable admission leaves the policy alone except on a repeated miss. -/
theorem planStableCandidate_unchanged_iff {p q : WorkingSetPolicy N} {key : CacheKey N}
    {nbytes : ℤ} {plan : AdmissionPlan N} (hacc : plan.accepted = true)
    (h : planStableCandidate key nbytes p = (.ok plan, q)) : q = p ↔ ¬ repeatsMiss p key := by
  unfold planStableCandidate at h
  split_ifs at h with hdisabled
  · simp only [Prod.mk.injEq, Except.ok.injEq] at h
    rw [← h.1] at hacc
    simp at hacc
  split at h
  · rename_i hkeys
    cases h
    simp [repeatsMiss, hkeys]
  · rename_i currentKey rest hkeys
    split at h
    · cases h
    · rename_i current hcurrent
      rw [repeatsMiss_iff hkeys hcurrent]
      split_ifs at h with hself hcold
      · cases h
        exact iff_of_true rfl (fun hmiss => hmiss.1 hself)
      · cases h
        exact iff_of_true rfl (fun hmiss => hmiss.2.1 hcold)
      · dsimp only at h
        split_ifs at h with hcount
        · cases h
          exact iff_of_false (advanceProbation_ne hcount) (not_not.mpr ⟨hself, hcold, hcount⟩)
        · simp only [Prod.mk.injEq, Except.ok.injEq] at h
          rw [← h.1] at hacc
          simp at hacc

/-- A stable admission that raises keeps the map; its policy is the one its planning left. -/
theorem admitStableCandidate_error {key : CacheKey N} {payload : π} {nbytes : ℤ} {e : PyError}
    {c c' : CacheCoordinator N (FaultyMap N π)}
    (h : admitStableCandidate FaultyMap.backend key payload nbytes c = (.error e, c')) :
    c'.backend.values = c.backend.values ∧ (c'.policy = c.policy ↔ ¬ repeatsMiss c.policy key) := by
  rw [admitStableCandidate_apply] at h
  rcases hplan : planStableCandidate key nbytes c.policy with ⟨⟨e'⟩ | ⟨plan⟩, policy⟩ <;>
    rw [hplan] at h <;> dsimp only at h
  · cases h
    refine ⟨rfl, ?_⟩
    have hout := c.policy.planStableCandidate_outcome key nbytes
    rw [hplan] at hout
    cases hout with
    | dangling hhead hnone =>
      refine iff_of_true rfl ?_
      unfold repeatsMiss
      obtain ⟨rest, hkeys⟩ := List.head?_eq_some_iff.mp hhead
      simp [hkeys, hnone]
  · obtain ⟨hacc, hpolicy, hvalues⟩ := admit_error h
    refine ⟨hvalues, ?_⟩
    rw [hpolicy]
    exact planStableCandidate_unchanged_iff hacc hplan

/-- A stable admission that raises leaves map and policy as they were exactly when the
candidate was not missing for a second time. -/
theorem admitStableCandidate_atomic_iff {key : CacheKey N} {payload : π} {nbytes : ℤ}
    {e : PyError} {c c' : CacheCoordinator N (FaultyMap N π)}
    (h : admitStableCandidate FaultyMap.backend key payload nbytes c = (.error e, c')) :
    (c'.policy = c.policy ∧ c'.backend.values = c.backend.values) ↔
      ¬ repeatsMiss c.policy key := by
  obtain ⟨hvalues, hpolicy⟩ := admitStableCandidate_error h
  rw [← hpolicy]
  exact and_iff_left hvalues

section SecondMiss

/-- A stable incumbent of two tokens and a shorter candidate. -/
def incumbent : CacheKey ℕ := ⟨0, [1, 2]⟩
def candidate : CacheKey ℕ := ⟨0, [3]⟩

/-- The candidate has missed once, and the insertion of the next admission will raise. -/
def missedOnce : CacheCoordinator ℕ (FaultyMap ℕ ℕ) :=
  armed (Recorded.run (.new 4 100 ∅ none)
    [(.admitStableCandidate incumbent 7 1, none),
      (.admitStableCandidate candidate 8 1, none)]).cache
    (some ⟨2, .before, .runtimeError "insert failed"⟩)

/-- The reachable state in which the failed admission of a second miss is not undone. -/
theorem secondMiss_not_rolled_back :
    missedOnce.policy.stableCandidateCount = 1 ∧
      (admitStableCandidate FaultyMap.backend candidate 8 1 missedOnce).1 =
        .error (.runtimeError "insert failed") ∧
      (admitStableCandidate FaultyMap.backend candidate 8 1 missedOnce).2.policy ≠
        missedOnce.policy := by
  refine ⟨by decide +kernel, by decide +kernel, fun h => ?_⟩
  exact absurd (congrArg stableCandidateCount h) (by decide +kernel)

/-- The same failure seen through the exact condition. -/
theorem admitStableCandidate_atomic_iff_secondMiss :
    ¬ ((admitStableCandidate FaultyMap.backend candidate 8 1 missedOnce).2.policy =
          missedOnce.policy ∧
        (admitStableCandidate FaultyMap.backend candidate 8 1 missedOnce).2.backend.values =
          missedOnce.backend.values) := by
  have hraises : (admitStableCandidate FaultyMap.backend candidate 8 1 missedOnce).1 =
      .error (.runtimeError "insert failed") := by decide +kernel
  have hmisses : repeatsMiss missedOnce.policy candidate := by decide +kernel
  generalize hrun : admitStableCandidate FaultyMap.backend candidate 8 1 missedOnce = r at hraises ⊢
  obtain ⟨result, c'⟩ := r
  cases hraises
  rw [admitStableCandidate_atomic_iff hrun]
  exact not_not.mpr hmisses

end SecondMiss

end StateBraid.Coordinator
