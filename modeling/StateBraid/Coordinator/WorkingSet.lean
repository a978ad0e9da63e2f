import StateBraid.Coordinator.Plans
import StateBraid.Policy.Protected

/-!
# The working set in runs

What reachable policies protect: the whole working set, where it fits with the admission
or within the targets of the trim. A transient admission that does not fit beside it, and
an active one that does not fit beside stale branches and pins, take it apart.
-/

namespace StateBraid.Coordinator
open Library Policy WorkingSetPolicy

variable {N σ π τ : Type} [DecidableEq N]

/-- A working set that fits is spared by the admissions into it and by trims. -/
structure ProtectsWorking (p : WorkingSetPolicy N) : Prop where
  admission : ∀ key role nbytes predecessor, role = "stable" ∨ role = "active" →
    p.FitsWith (p.workingBeside key (p.planAdmission key role nbytes predecessor).evictions)
      (max 0 nbytes) →
    ∀ k ∈ p.workingBeside key (p.planAdmission key role nbytes predecessor).evictions,
      k ∉ evictedKeys (p.planAdmission key role nbytes predecessor).evictions
  trim : ∀ nSequences nBytes plan, p.planTrim nSequences nBytes = .ok plan →
    p.Within p.workingKeys (p.trimTargets nSequences nBytes).1
      (p.trimTargets nSequences nBytes).2 →
    ∀ k ∈ p.workingKeys, k ∉ evictedKeys plan.evictions

/-- In every state of every run the whole working set is protected when it fits. -/
theorem run_protects_fitting_working_set (config : PolicyConfig)
    (B : TransactionalBackend N σ π τ) (b : σ) (ops : List (Operation N π)) :
    ProtectsWorking (policyAfter B config b ops) where
  admission _ _ _ _ hrole hfits _ hk :=
    have h := policyAfter_regular B config b ops
    h.spares_workingBeside h.limits hrole hfits hk
  trim _ _ _ hplan hwithin _ hk :=
    have h := policyAfter_regular B config b ops
    h.trim_spares_working h.limits hplan hwithin hk

/-! ## Transient admissions -/

/-- In every state of every run, a new transient entry displaces nothing of the working set
exactly when it is refused or fits beside it. -/
theorem run_transient_spares_working_iff (config : PolicyConfig)
    (B : TransactionalBackend N σ π τ) (b : σ) (ops : List (Operation N π)) {key : CacheKey N}
    {role : Role} (nbytes : ℤ) (predecessor : Option (CacheKey N))
    (hnew : key ∉ (policyAfter B config b ops).entries.keys)
    (hrole : role ≠ "stable" ∧ role ≠ "active") :
    (∀ k ∈ (policyAfter B config b ops).workingKeys, k ∉ evictedKeys
      ((policyAfter B config b ops).planAdmission key role nbytes predecessor).evictions) ↔
      ¬ (policyAfter B config b ops).Admissible nbytes ∨
        (policyAfter B config b ops).FitsWith (policyAfter B config b ops).workingKeys
          (max 0 nbytes) := by
  have h := policyAfter_regular B config b ops
  generalize policyAfter B config b ops = p at *
  by_cases hroom : p.Admissible nbytes
  · rw [h.transient_spares_working_iff hroom hnew hrole]
    exact (or_iff_right (not_not.mpr hroom)).symm
  · refine iff_of_true (fun k _ => ?_) (Or.inl hroom)
    rw [refused_evicts_nothing hroom]
    exact Finset.notMem_empty k

namespace Sample

/-- A stable prefix and an active branch of it, 40 bytes each. -/
def stableActive : List (Operation String ℤ) :=
  [.admitEntry ⟨"m", [1]⟩ 0 "stable" 40 none, .admitEntry ⟨"m", [1, 2]⟩ 0 "active" 40 none]

/-- Two sequences and no pins. -/
def twoSequences : PolicyConfig := PolicyConfig.new 2 100 ∅ none

end Sample

open Sample

/-- A third sequence leaves room for a small transient entry. -/
theorem assistant_spares_working :
    ⟨"m", [1]⟩ ∉ evictedKeys ((policyAfter FaultyMap.backend threeSequences .empty
        stableActive).planAdmission ⟨"m", [9]⟩ "assistant" 5 none).evictions ∧
      ⟨"m", [1, 2]⟩ ∉ evictedKeys ((policyAfter FaultyMap.backend threeSequences .empty
        stableActive).planAdmission ⟨"m", [9]⟩ "assistant" 5 none).evictions := by
  have hnew : (⟨"m", [9]⟩ : CacheKey String) ∉
      (policyAfter FaultyMap.backend threeSequences .empty stableActive).entries.keys := by
    decide +kernel
  have hrole : ("assistant" : Role) ≠ "stable" ∧ ("assistant" : Role) ≠ "active" := by decide
  have hspared := (run_transient_spares_working_iff threeSequences FaultyMap.backend .empty
    stableActive 5 none hnew hrole).mpr (Or.inr (by decide +kernel))
  exact ⟨hspared _ (by decide +kernel), hspared _ (by decide +kernel)⟩

/-- In two sequences the pair fits, and an empty transient entry displaces the branch. -/
theorem assistant_displaces_working :
    (policyAfter FaultyMap.backend twoSequences .empty stableActive).Fits
        (policyAfter FaultyMap.backend twoSequences .empty stableActive).workingKeys ∧
      ⟨"m", [9]⟩ ∉ (policyAfter FaultyMap.backend twoSequences .empty stableActive).entries.keys ∧
      ⟨"m", [1, 2]⟩ ∈
        (policyAfter FaultyMap.backend twoSequences .empty stableActive).workingKeys ∧
      ⟨"m", [1, 2]⟩ ∈ evictedKeys ((policyAfter FaultyMap.backend twoSequences .empty
        stableActive).planAdmission ⟨"m", [9]⟩ "assistant" 0 none).evictions := by
  decide +kernel

/-! ## The stable resident and an active admission -/

/-- In every state of every run, a stable resident that fits with the active entry admitted
survives it exactly when all lanes fit with the entry, or it fits with the pins too. -/
theorem run_stable_survives_iff (config : PolicyConfig) (B : TransactionalBackend N σ π τ) (b : σ)
    (ops : List (Operation N π)) {stable key : CacheKey N} (nbytes : ℤ)
    (predecessor : Option (CacheKey N))
    (hstable : (policyAfter B config b ops).roleOf stable = some "stable") (hne : stable ≠ key)
    (hpair : (policyAfter B config b ops).FitsWith {stable} (max 0 nbytes)) :
    stable ∉ evictedKeys
        ((policyAfter B config b ops).planAdmission key "active" nbytes predecessor).evictions ↔
      (policyAfter B config b ops).FitsWith
          ((policyAfter B config b ops).lanesBeside key predecessor) (max 0 nbytes) ∨
        (policyAfter B config b ops).FitsWith
          (insert stable ((policyAfter B config b ops).pinsBeside key "active"))
          (max 0 nbytes) := by
  have h := policyAfter_regular B config b ops
  generalize policyAfter B config b ops = p at *
  have hresident := mem_keys_of_roleOf hstable
  have hroom : p.Admissible nbytes := by
    refine ⟨(Nat.succ_pos _).trans_le hpair.1, Nat.pos_of_ne_zero fun hzero => ?_, ?_⟩
    · rw [h.idle hzero] at hresident
      exact absurd hresident List.not_mem_nil
    · have hheld := h.limits.bytesOf_mono (Finset.empty_subset {stable})
      rw [bytesOf, Finset.sum_empty] at hheld
      have hbytes := hpair.2
      omega
  exact h.stable_survives_iff hstable hne hroom

namespace Sample

/-- A hundred bytes, and a role without a rank pinned. -/
def hundredBytes : PolicyConfig := PolicyConfig.new 8 100 {"manual-pin"} none

/-- The pair, and a pin of 20 bytes. -/
def pairAndPin : List (Operation String ℤ) :=
  stableActive ++ [.admitEntry ⟨"m", [7]⟩ 0 "manual-pin" 20 none]

end Sample

/-- Without the pin the stable prefix survives another branch. -/
theorem stable_survives_branch :
    ⟨"m", [1]⟩ ∉ evictedKeys ((policyAfter FaultyMap.backend hundredBytes .empty
      stableActive).planAdmission ⟨"m", [1, 3]⟩ "active" 50 none).evictions :=
  (run_stable_survives_iff hundredBytes FaultyMap.backend .empty stableActive 50 none
    (by decide +kernel) (by decide) (by decide +kernel)).mpr (Or.inr (by decide +kernel))

/-- With the pin it goes, after the stale branch, although it fits with the new one. -/
theorem stable_displaced_by_branch :
    (policyAfter FaultyMap.backend hundredBytes .empty pairAndPin).roleOf ⟨"m", [1]⟩ =
        some "stable" ∧
      (policyAfter FaultyMap.backend hundredBytes .empty pairAndPin).FitsWith {⟨"m", [1]⟩}
        (max 0 50) ∧
      ((policyAfter FaultyMap.backend hundredBytes .empty pairAndPin).planAdmission ⟨"m", [1, 3]⟩
        "active" 50 none).evictions =
          [⟨⟨"m", [1, 2]⟩, .capacity⟩, ⟨⟨"m", [1]⟩, .capacity⟩] := by
  decide +kernel

end StateBraid.Coordinator
