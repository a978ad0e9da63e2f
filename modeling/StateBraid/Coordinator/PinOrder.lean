import StateBraid.Coordinator.Plans
import StateBraid.Policy.PinOrder

/-!
# Pins in runs

Pins outlast the unpinned transient residents in all runs of a configuration exactly when
every pinned role outranks them, or nothing can reside beside a pin. Where a pinned role
keeps a rank below a transient one, two admissions and a trim show it.
-/

namespace StateBraid.Coordinator
open Library Policy WorkingSetPolicy

variable {N π : Type} [DecidableEq N]

/-! ## Admissions over a map without faults -/

/-- A call without a fault ahead returns. -/
theorem FaultyMap.call_calm (m : MapCall N) (key : CacheKey N) (value : Option (π × Role)) :
    Exec.Triple (fun s : FaultyMap N π => s.fault = none) (FaultyMap.call m key value)
      (fun _ s => s.fault = none) (fun _ _ => False) := by
  intro s hs
  have hspec := FaultyMap.call_spec m key value s
  rcases hcall : FaultyMap.call m key value s with ⟨⟨e⟩ | ⟨a⟩, s'⟩ <;> rw [hcall] at hspec
  · exact hspec.1 hs
  · exact hspec.1 hs

theorem FaultyMap.mutate_calm (plan : AdmissionPlan N) (payload : π) :
    Exec.Triple (fun s : FaultyMap N π => s.fault = none) (FaultyMap.backend.mutate plan payload)
      (fun _ s => s.fault = none) (fun _ _ => False) := by
  refine Exec.Triple.bind (S := fun _ (s : FaultyMap N π) => s.fault = none)
    (Exec.Triple.forEach (I := fun _ (s : FaultyMap N π) => s.fault = none) _
      fun _ eviction _ _ => FaultyMap.call_calm _ _ _) fun _ => ?_
  exact Exec.Triple.bind (FaultyMap.call_calm _ _ _) fun _ => FaultyMap.call_calm _ _ _

/-- An admission without a fault ahead commits its plan. -/
theorem FaultyMap.admitPlan_calm (plan : AdmissionPlan N) (payload : π)
    {c : CacheCoordinator N (FaultyMap N π)} (hc : c.backend.fault = none) :
    (admitPlan FaultyMap.backend plan payload c).2.policy = c.policy.commit plan ∧
      (admitPlan FaultyMap.backend plan payload c).2.backend.fault = none := by
  have hreturns : Exec.Triple (fun c : CacheCoordinator N (FaultyMap N π) => c.backend.fault = none)
      (admitPlan FaultyMap.backend plan payload) (fun _ c => c.backend.fault = none)
      (fun _ _ => False) := by
    unfold admitPlan
    split
    · refine Exec.Triple.bind (S := fun _ c => c.backend.fault = none) ?_ fun _ =>
        Exec.Triple.skip true
      intro c hc
      obtain ⟨captured, hrun, -, -⟩ := FaultyMap.mapBackend.toMapBackend.captureAll
        (fun (k : CacheKey N) (_ : k ∈ affectedKeys plan) => trivial) c.backend
      have honce : onBackend (FaultyMap.backend.captureAll (affectedKeys plan)) c =
          (.ok captured, c) := by
        simp [onBackend, Exec.zoom, hrun]
      unfold transaction
      rw [Exec.gets_bind_apply, Exec.bind_of_ok honce]
      refine Exec.Triple.tryExcept (P := fun c => c.backend.fault = none) (E := fun _ _ => False)
        ?_ (fun _ _ hno => hno.elim) c hc
      refine Exec.Triple.bind (S := fun _ c => c.backend.fault = none)
        (Exec.Triple.zoom fun c hc => FaultyMap.mutate_calm plan payload c.backend hc) fun _ => ?_
      exact (Exec.Triple.modify _).pre fun c hc => hc
    · exact Exec.Triple.skip false
  have hboth := ((admit_policy FaultyMap.backend plan payload c.policy).and hreturns) c ⟨rfl, hc⟩
  rcases hrun : admitPlan FaultyMap.backend plan payload c with ⟨⟨e⟩ | ⟨a⟩, c'⟩ <;>
    rw [hrun] at hboth
  · exact hboth.2.elim
  · exact ⟨hboth.1.2, hboth.2⟩

theorem FaultyMap.stepOperation_admitEntry (key : CacheKey N) (payload : π) (role : Role)
    (nbytes : ℤ) {c : CacheCoordinator N (FaultyMap N π)} (hc : c.backend.fault = none) :
    (stepOperation FaultyMap.backend c (.admitEntry key payload role nbytes none)).policy =
        c.policy.commit (c.policy.planAdmission key role nbytes none) ∧
      (stepOperation FaultyMap.backend c
        (.admitEntry key payload role nbytes none)).backend.fault = none := by
  rw [stepOperation, perform, replyWith_state, admitEntry, Exec.gets_bind_apply]
  exact FaultyMap.admitPlan_calm _ payload hc

/-! ## When pins outlast -/

/-- A pinned role and a transient one above it that is not pinned. -/
theorem exists_outranked {N : Type} {config : PolicyConfig} (h : ¬ PinsOutrank config) :
    ∃ r s : Role, r ∈ config.pinRoles ∧ s ∉ config.pinRoles ∧ (r ≠ "stable" ∧ r ≠ "active") ∧
      s ≠ "stable" ∧ s ≠ "active" ∧
      ∀ p : WorkingSetPolicy N, p.config = config → p.rank r < p.rank s := by
  by_cases hassistant : "assistant" ∈ config.pinRoles
  · obtain ⟨s, hs⟩ := Infinite.exists_notMem_finset
      (config.pinRoles ∪ ({"assistant", "user", "system", "active", "stable"} : Finset Role))
    simp only [Finset.mem_union, Finset.mem_insert, Finset.mem_singleton, not_or] at hs
    obtain ⟨hunpinned, h1, h2, h3, h4, h5⟩ := hs
    refine ⟨"assistant", s, hassistant, hunpinned, by decide, h5, h4, fun p hp => ?_⟩
    have hlookup : roleRanks.lookup s = none := by
      rw [List.lookup_eq_none_iff]
      simp [roleRanks, h1, h2, h3, h4, h5]
    have hown : roleRanks.lookup "assistant" = some 10 := by decide
    rw [rank_of_lookup hown, rank, hp, if_neg hunpinned, hlookup]
    decide
  · have huser : "user" ∈ config.pinRoles ∧ "system" ∉ config.pinRoles := by
      unfold PinsOutrank at h
      tauto
    refine ⟨"user", "system", huser.1, huser.2, by decide, by decide, by decide, fun p _ => ?_⟩
    have huserRank : roleRanks.lookup "user" = some 30 := by decide
    have hsystemRank : roleRanks.lookup "system" = some 50 := by decide
    rw [rank_of_lookup huserRank, rank_of_lookup hsystemRank]
    decide

/-- Two empty residents, a pin below a transient one, and all runs that reach them. -/
theorem exists_run_against_pins [Inhabited N] {config : PolicyConfig}
    (htwo : 2 ≤ config.maxSequences) (hbytes : 0 < config.maxBytes) (h : ¬ PinsOutrank config) :
    ∃ ops : List (Operation N Unit),
      ¬ (policyAfter FaultyMap.backend config .empty ops).PinsOutlast := by
  obtain ⟨r, s, hpinned, hunpinned, hr, hstable, hactive, hrank⟩ := exists_outranked (N := N) h
  let pin : CacheKey N := ⟨default, [0]⟩
  let other : CacheKey N := ⟨default, [1]⟩
  have hne : other ≠ pin := by simp [pin, other]
  refine ⟨[.admitEntry pin () r 0 none, .admitEntry other () s 0 none], ?_⟩
  have hafter : policyAfter FaultyMap.backend config .empty
      [.admitEntry pin () r 0 none, .admitEntry other () s 0 none] =
        ((WorkingSetPolicy.new config).admitEmpty pin r).admitEmpty other s := by
    obtain ⟨hfirst, hcalm⟩ := FaultyMap.stepOperation_admitEntry pin () r 0
      (c := ⟨WorkingSetPolicy.new config, FaultyMap.empty⟩) rfl
    obtain ⟨hsecond, -⟩ := FaultyMap.stepOperation_admitEntry other () s 0 hcalm
    rw [policyAfter, runOperations, List.foldl_cons, List.foldl_cons, List.foldl_nil, hsecond,
      hfirst, admitEmpty, admitEmpty]
  have hregular := policyAfter_regular FaultyMap.backend config .empty
    [.admitEntry pin () r 0 none, .admitEntry other () s 0 none]
  have hconfig := policyAfter_config FaultyMap.backend config .empty
    [.admitEntry pin () r 0 none, .admitEntry other () s 0 none]
  rw [hafter] at hregular hconfig ⊢
  have htable (k : CacheKey N) :
      (((WorkingSetPolicy.new config).admitEmpty pin r).admitEmpty other s).entries.get? k =
        if k = other then some ⟨other, s, 0, false, 0⟩
        else if k = pin then some ⟨pin, r, 0, true, 0⟩ else none :=
    admitEmpty_twice htwo hbytes hr.1 hstable hpinned hunpinned
  generalize ((WorkingSetPolicy.new config).admitEmpty pin r).admitEmpty other s = p at *
  exact hregular.trim_takes_pin hne (by rwa [hconfig]) hstable hactive hr (hrank p hconfig) htable

/-- In every state of every run over any backend, a pin that is evicted for room outlasts
all unpinned transient residents, exactly when at most one sequence or no byte is allowed,
or every pinned role outranks the transient ones. -/
theorem run_pins_outlast_iff [Inhabited N] (config : PolicyConfig) :
    (∀ (σ π τ : Type) (B : TransactionalBackend N σ π τ) (b : σ) (ops : List (Operation N π)),
      (policyAfter B config b ops).PinsOutlast) ↔
      config.maxSequences ≤ 1 ∨ config.maxBytes = 0 ∨ PinsOutrank config := by
  constructor
  · intro hall
    by_contra hnot
    rw [not_or, not_or] at hnot
    obtain ⟨ops, hrun⟩ := exists_run_against_pins (N := N) (not_le.mp hnot.1)
      (Nat.pos_of_ne_zero hnot.2.1) hnot.2.2
    exact hrun (hall _ _ _ _ _ ops)
  · intro hwhen σ π τ B b ops
    have h := policyAfter_regular B config b ops
    have hconfig := policyAfter_config B config b ops
    rcases hwhen with hone | hzero | hout
    · refine pinsOutlast_of_subsingleton h (h.limits.sequences.trans ?_)
      rwa [hconfig]
    · refine pinsOutlast_of_subsingleton h ?_
      rw [← card_residents, residents, h.idle (by rwa [hconfig])]
      exact Nat.zero_le 1
    · exact h.pinsOutlast (by rwa [hconfig])

namespace Sample

/-- A pinned assistant turn and an unpinned one under an unknown role. -/
def pinnedAssistant : PolicyConfig := PolicyConfig.new 2 100 {"assistant"} none

def assistantAndNote : List (Operation String ℤ) :=
  [.admitEntry ⟨"m", [1]⟩ 0 "assistant" 10 none, .admitEntry ⟨"m", [2]⟩ 0 "note" 10 none]

end Sample

open Sample

/-- The trim evicts the pin, and the unpinned entry stays. -/
theorem pinned_assistant_goes_first :
    ⟨"m", [1]⟩ ∈ (policyAfter FaultyMap.backend pinnedAssistant .empty
        assistantAndNote).pinnedKeys ∧
      ⟨"m", [2]⟩ ∈ (policyAfter FaultyMap.backend pinnedAssistant .empty
        assistantAndNote).transientKeys ∧
      (policyAfter FaultyMap.backend pinnedAssistant .empty assistantAndNote).planTrim (some 1)
        none = .ok ⟨[⟨⟨"m", [1]⟩, .trim⟩]⟩ :=
  ⟨by decide +kernel, by decide +kernel, by rfl⟩

end StateBraid.Coordinator
