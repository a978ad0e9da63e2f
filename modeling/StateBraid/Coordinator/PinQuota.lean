import StateBraid.Coordinator.FaultyMap
import StateBraid.Policy.Pins

/-!
# The transient reserve

The stable lane holds at most one resident in every state of every run, and under a
configuration whose quota is sound the pins never take the reserved slots. A pinned
role with a rank of its own escapes the search for a pin to evict, and takes them.
-/

namespace StateBraid.Coordinator
open Library Policy WorkingSetPolicy

variable {N σ π τ : Type} [DecidableEq N]

/-- Table and buckets agree, with at most one stable resident, in every state of a run. -/
theorem stableLane_invariant : PolicyInvariant (StableLane (N := N)) where
  planAdmission p key role nbytes predecessor h :=
    h.commit (p.planAdmission_rotates key role nbytes predecessor)
  planStable p key nbytes plan q h hplan := by
    have hsame := p.planStableCandidate_sameResidents key nbytes
    rw [hplan] at hsame
    exact (h.congr hsame).commit (planStableCandidate_rotates hplan)
  probation p key nbytes h := h.congr (p.planStableCandidate_sameResidents key nbytes)
  commitTrim _ plan h := h.commitTrim plan
  observeHit _ key h := h.observeHit key

/-- What a run under one configuration keeps besides the lane: the hard limits, and the
pins within theirs. -/
structure QuotaKept (config : PolicyConfig) (p : WorkingSetPolicy N) : Prop where
  config : p.config = config
  lane : p.StableLane
  limits : p.WithinLimits
  pins : p.pinCount ≤ p.config.pinLimit

/-- Committing a plan that makes room for its pin keeps the pins within their limit. -/
theorem QuotaKept.commit {config : PolicyConfig} {p : WorkingSetPolicy N}
    (h : QuotaKept config p) {plan : AdmissionPlan N}
    (hrotates : p.Rotates plan) (hfits : FitsLimits p plan)
    (hroom : plan.accepted = true → p.config.transientReserve ≠ 0 → p.MakesRoom plan) :
    QuotaKept config (p.commit plan) := by
  have hlimits := commit_withinLimits h.limits hfits
  refine ⟨(commit_config p plan).trans h.config, h.lane.commit hrotates, hlimits, ?_⟩
  cases hacc : plan.accepted with
  | false =>
    rw [commit_rejected p hacc]
    exact h.pins
  | true =>
    rw [commit_config]
    by_cases hreserve : p.config.transientReserve = 0
    · have hlimit := p.config.pinLimit_eq
      have hsequences := hlimits.sequences
      rw [commit_config] at hsequences
      have hcount := (p.commit plan).pinCount_le_nSequences
      omega
    · exact commit_pinCount_le hacc (hroom hacc hreserve) h.pins

theorem quotaKept_invariant {config : PolicyConfig} (hsound : QuotaSound config) :
    PolicyInvariant (QuotaKept (N := N) config) where
  planAdmission p key role nbytes predecessor h :=
    h.commit (p.planAdmission_rotates key role nbytes predecessor)
      (p.planAdmission_fits key role nbytes predecessor) fun hacc hreserve =>
        h.lane.makesRoom (h.config ▸ hsound) hreserve hacc
  planStable p key nbytes plan q h hplan := by
    have hsame := p.planStableCandidate_sameResidents key nbytes
    rw [hplan] at hsame
    have hq : QuotaKept config q := ⟨hsame.config.trans h.config, h.lane.congr hsame,
      h.limits.congr hsame.entries hsame.config, by
        rw [pinCount_congr hsame.entries, hsame.config]
        exact h.pins⟩
    refine hq.commit (planStableCandidate_rotates hplan) (planStableCandidate_fits hplan) ?_
    intro hacc hreserve
    obtain ⟨reason, -, rfl⟩ := planStableCandidate_accepted hplan hacc
    have hadmission : (q.planAdmission key "stable" nbytes none).accepted = true := hacc
    exact hq.lane.makesRoom (hq.config ▸ hsound) hreserve hadmission
  probation p key nbytes h := by
    have hsame := p.planStableCandidate_sameResidents key nbytes
    refine ⟨hsame.config.trans h.config, h.lane.congr hsame,
      h.limits.congr hsame.entries hsame.config, ?_⟩
    rw [pinCount_congr hsame.entries, hsame.config]
    exact h.pins
  commitTrim p plan h := ⟨(commitTrim_config p plan).trans h.config, h.lane.commitTrim plan,
    commitTrim_withinLimits h.limits plan, by
      rw [commitTrim_config]
      exact (commitTrim_pinCount_le p plan).trans h.pins⟩
  observeHit p key h := ⟨(observeHit_config p key).trans h.config, h.lane.observeHit key,
    observeHit_withinLimits h.limits key, by
      rw [observeHit_pinCount, observeHit_config]
      exact h.pins⟩

/-- Under a sound configuration the pins leave the reserve free in every state of every
run, whatever the backend does. -/
theorem run_keeps_transient_reserve {config : PolicyConfig} (hsound : QuotaSound config)
    (B : TransactionalBackend N σ π τ) (b : σ) (ops : List (Operation N π)) :
    (runOperations B ⟨.new config, b⟩ ops).policy.pinCount ≤ config.pinLimit := by
  have h := (quotaKept_invariant hsound).run B ⟨.new config, b⟩ ops
    { config := rfl, lane := .new config, limits := new_withinLimits config, pins := by
        simp [pinCount, WorkingSetPolicy.new, Dict.values] }
  have hpins := h.pins
  rwa [h.config] at hpins

/-! ## A pinned role with a rank of its own -/

namespace Sample

/-- Four sequences, two of them reserved, and `system` pinned. -/
def pinnedSystem : PolicyConfig := PolicyConfig.new 4 100 {"system"} none

def admitSystem (token : ℤ) : Operation String ℤ :=
  .admitEntry ⟨"m", [token]⟩ 0 "system" 10 none

/-- Four sequences, two of them reserved, and a role without a rank pinned. -/
def pinnedManual : PolicyConfig := PolicyConfig.new 4 100 {"manual-pin"} none

theorem pinnedManual_sound : QuotaSound pinnedManual := by
  refine Or.inr (Or.inr (Or.inr ⟨fun role hrole => Or.inr ?_, by decide, fun h => ?_⟩))
  · rw [Finset.mem_singleton.mp hrole]
    decide
  · exact absurd (Finset.mem_singleton.mp h) (by decide)

end Sample

open Sample

theorem manual_pins_keep_reserve :
    (runOperations FaultyMap.backend ⟨.new pinnedManual, .empty⟩
      [admitSystem 1]).policy.pinCount ≤ 2 :=
  run_keeps_transient_reserve pinnedManual_sound FaultyMap.backend .empty [admitSystem 1]

/-- Three pinned residents where two are allowed. -/
theorem system_pins_take_reserve :
    pinnedSystem.pinLimit = 2 ∧
    (runOperations FaultyMap.backend ⟨.new pinnedSystem, .empty⟩
      [admitSystem 1, admitSystem 2, admitSystem 3]).policy.pinCount = 3 :=
  ⟨by decide, by decide +kernel⟩

end StateBraid.Coordinator
