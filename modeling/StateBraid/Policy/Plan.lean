import Mathlib.Algebra.BigOperators.Group.Finset.Basic
import Mathlib.Data.List.Sort
import StateBraid.Errors
import StateBraid.Library.Exec
import StateBraid.Policy.State

/-!
# Planning admissions and trims

Plans are made without changing the residents: they list the keys to evict, in the
order the four rules of `plan_admission` find them, or the victims of a trim. Only
`plan_stable_candidate` writes to the policy, to the three fields of the probation
of a stable candidate and to one counter.
-/
namespace StateBraid.Policy
open Library
open scoped BigOperators

/-- `ROLE_RANKS`. -/
def roleRanks : List (Role × ℕ) :=
  [("assistant", 10), ("user", 30), ("system", 50), ("active", 60), ("stable", 70)]

/-- `UNKNOWN_ROLE_RANK`. -/
def unknownRoleRank : ℕ := 20

/-- `PIN_RANK_MIN`. -/
def pinRankMin : ℕ := 100

variable {N : Type} [DecidableEq N]

/-- The set `evicted`, which the planner keeps in step with its list of evictions. -/
def evictedKeys (evictions : List (Eviction N)) : Finset (CacheKey N) :=
  (evictions.map Eviction.key).toFinset

/-- `add_evict`: write an eviction down unless it is the admitted key or a repetition. -/
def addEvict (key : CacheKey N) (evictions : List (Eviction N))
    (candidate : Option (CacheKey N)) (reason : EvictionReason) : List (Eviction N) :=
  match candidate with
  | none => evictions
  | some c =>
    if c ≠ key ∧ c ∉ evictedKeys evictions then evictions ++ [⟨c, reason⟩] else evictions

namespace WorkingSetPolicy

/-- `_rank`: a pinned role keeps its own rank when it has one. -/
def rank (p : WorkingSetPolicy N) (role : Role) : ℕ :=
  if role ∈ p.config.pinRoles then (roleRanks.lookup role).getD pinRankMin
  else (roleRanks.lookup role).getD unknownRoleRank

/-- Roles by ascending rank; the sort is stable, so ties stay in creation order. -/
def sortByRank (p : WorkingSetPolicy N) (roles : List Role) : List Role :=
  roles.insertionSort (fun a b => p.rank a ≤ p.rank b)

/-- `_ordered_keys`. -/
def orderedKeys (p : WorkingSetPolicy N) : List (CacheKey N) :=
  (p.sortByRank p.buckets.keys).flatMap p.keysForRole

/-- `_next_victim`. -/
def nextVictim (p : WorkingSetPolicy N) (excluding : Finset (CacheKey N)) :
    Option (CacheKey N) :=
  p.orderedKeys.find? (fun k => k ∉ excluding)

/-- `_oldest_pin`: the first key of the role buckets whose rank marks a pin. -/
def oldestPin (p : WorkingSetPolicy N) (excluding : Finset (CacheKey N)) :
    Option (CacheKey N) :=
  ((p.sortByRank (p.buckets.keys.filter (fun r => p.rank r ≥ pinRankMin))).flatMap
    p.keysForRole).find? (fun k => k ∉ excluding)

/-- `_working_keys`. -/
def workingKeys (p : WorkingSetPolicy N) : Finset (CacheKey N) :=
  (p.keysForRole "stable" ++ p.keysForRole "active").toFinset

/-- The entries a plan would keep besides the admitted one. -/
def keptEntries (p : WorkingSetPolicy N) (key : CacheKey N) (evicted : Finset (CacheKey N)) :
    List (EntryState N) :=
  (p.entries.items.filter (fun kv => kv.1 ∉ evicted ∧ kv.1 ≠ key)).map Prod.snd

/-- `_projected_state`: sequences and bytes after the plan so far. -/
def projectedState (p : WorkingSetPolicy N) (key : CacheKey N) (nbytes : ℤ)
    (evicted : Finset (CacheKey N)) : ℕ × ℤ :=
  let kept := p.keptEntries key evicted
  (kept.length + 1, (kept.map EntryState.nbytes).sum + nbytes)

/-- `_projected_over_limit`. -/
def projectedOverLimit (p : WorkingSetPolicy N) (key : CacheKey N) (nbytes : ℤ)
    (evicted : Finset (CacheKey N)) : Bool :=
  let projected := p.projectedState key nbytes evicted
  projected.1 > p.config.maxSequences ∨ projected.2 > p.config.maxBytes

/-- What one protected key counts for: the sequences and bytes of `_working_set_fits`. -/
def protectedWeight (p : WorkingSetPolicy N) (key : CacheKey N) (nbytes : ℤ)
    (evicted : Finset (CacheKey N)) (k : CacheKey N) : ℕ × ℤ :=
  if k = key then (1, nbytes)
  else if k ∈ evicted then (0, 0)
  else match p.entries.get? k with
    | some entry => (1, entry.nbytes)
    | none => (0, 0)

/-- `_working_set_fits`. -/
def workingSetFits (p : WorkingSetPolicy N) (protectedKeys : Finset (CacheKey N))
    (key : CacheKey N) (nbytes : ℤ) (evicted : Finset (CacheKey N)) : Bool :=
  (∑ k ∈ protectedKeys, (p.protectedWeight key nbytes evicted k).1) ≤ p.config.maxSequences ∧
    (∑ k ∈ protectedKeys, (p.protectedWeight key nbytes evicted k).2) ≤ p.config.maxBytes

/-- A stable admission rotates the other stable residents out. -/
def rotateStable (p : WorkingSetPolicy N) (key : CacheKey N) (role : Role) :
    List (Eviction N) :=
  if role = "stable" then
    (p.keysForRole "stable").foldl (fun ev k => addEvict key ev (some k) .stableRotate) []
  else []

/-- Whether `predecessor` is a resident active entry that the admitted tokens extend. -/
def isLineage (p : WorkingSetPolicy N) (key predecessor : CacheKey N) : Bool :=
  match p.entries.get? predecessor with
  | none => false
  | some entry =>
    entry.role = "active" ∧ predecessor.cacheNamespace = key.cacheNamespace ∧
      predecessor.tokens.length < key.tokens.length ∧
      key.tokens.take predecessor.tokens.length = predecessor.tokens

/-- An active admission compacts the predecessor it extends. -/
def compactLineage (p : WorkingSetPolicy N) (key : CacheKey N) (role : Role)
    (predecessor : Option (CacheKey N)) (evictions : List (Eviction N)) :
    List (Eviction N) :=
  match predecessor with
  | none => evictions
  | some pred =>
    if role = "active" ∧ p.isLineage key pred then
      addEvict key evictions (some pred) .activeSuccessor
    else evictions

/-- The number of pinned residents. -/
def pinCount (p : WorkingSetPolicy N) : ℕ := p.entries.values.countP EntryState.pinned

/-- At most one pin makes room, for a further pin or for the transient reserve. -/
def enforcePinQuota (p : WorkingSetPolicy N) (key : CacheKey N) (role : Role)
    (evictions : List (Eviction N)) : List (Eviction N) :=
  let existing := p.entries.get? key
  let unpinnedCount := p.nSequences - p.pinCount
  if role ∈ p.config.pinRoles ∧ ¬ existing.any EntryState.pinned ∧
      p.pinCount ≥ p.config.pinLimit then
    addEvict key evictions (p.oldestPin (evictedKeys evictions)) .pinQuota
  else if role ∉ p.config.pinRoles ∧ existing.isNone ∧
      p.nSequences ≥ p.config.maxSequences ∧ unpinnedCount < p.config.transientReserve ∧
      p.pinCount > 0 then
    addEvict key evictions (p.oldestPin (evictedKeys evictions)) .pinQuota
  else evictions

/-- The stable and active residents and an incoming one of these roles, as long as
they fit together; otherwise nothing is protected. -/
def protectedKeys (p : WorkingSetPolicy N) (key : CacheKey N) (role : Role) (nbytes : ℤ)
    (evictions : List (Eviction N)) : Finset (CacheKey N) :=
  let evicted := evictedKeys evictions
  let residents := p.workingKeys \ evicted
  let candidates := if role = "stable" ∨ role = "active" then insert key residents else residents
  if p.workingSetFits candidates key nbytes evicted then candidates else ∅

/-- The capacity loop. The fuel bounds the iterations, each of which evicts one more
bucketed key; when it is used up no bucketed key is left, and the loop ends as the
source's does when `_next_victim` finds nothing. -/
def capacityLoop (p : WorkingSetPolicy N) (key : CacheKey N) (nbytes : ℤ)
    (guarded : Finset (CacheKey N)) : ℕ → List (Eviction N) → List (Eviction N) × Bool
  | 0, evictions => (evictions, !p.projectedOverLimit key nbytes (evictedKeys evictions))
  | fuel + 1, evictions =>
    let evicted := evictedKeys evictions
    if p.projectedOverLimit key nbytes evicted then
      match p.nextVictim (insert key (evicted ∪ guarded)) with
      | some victim =>
        p.capacityLoop key nbytes guarded fuel (addEvict key evictions (some victim) .capacity)
      | none =>
        -- nothing unprotected is left: the hard limits win over protection
        match p.nextVictim (insert key evicted) with
        | some victim =>
          p.capacityLoop key nbytes guarded fuel
            (addEvict key evictions (some victim) .capacity)
        | none => (evictions, false)
    else (evictions, true)

/-- The evictions decided before the capacity loop. -/
def priorEvictions (p : WorkingSetPolicy N) (key : CacheKey N) (role : Role)
    (predecessor : Option (CacheKey N)) : List (Eviction N) :=
  p.enforcePinQuota key role (p.compactLineage key role predecessor (p.rotateStable key role))

/-- `plan_admission`. -/
def planAdmission (p : WorkingSetPolicy N) (key : CacheKey N) (role : Role) (nbytes : ℤ)
    (predecessor : Option (CacheKey N)) : AdmissionPlan N :=
  let nbytes := max 0 nbytes
  if p.config.maxSequences ≤ 0 ∨ p.config.maxBytes ≤ 0 then
    ⟨false, key, role, nbytes, [], .zeroCapacity⟩
  else if nbytes > p.config.maxBytes then ⟨false, key, role, nbytes, [], .oversized⟩
  else
    let prior := p.priorEvictions key role predecessor
    let guarded := p.protectedKeys key role nbytes prior
    match p.capacityLoop key nbytes guarded p.orderedKeys.length prior with
    | (evictions, true) => ⟨true, key, role, nbytes, evictions, .admitted⟩
    | (evictions, false) => ⟨false, key, role, nbytes, evictions, .cannotFit⟩

/-- The probation of a stable candidate: a miss counts while the incumbent has had
no hit since the last one, otherwise the count starts again. -/
def advanceProbation (p : WorkingSetPolicy N) (key : CacheKey N) (current : EntryState N) :
    WorkingSetPolicy N :=
  if p.stableCandidateKey = some key then
    if current.hits > p.stableCandidateBaseHits then
      { p with stableCandidateCount := 1, stableCandidateBaseHits := current.hits }
    else { p with stableCandidateCount := p.stableCandidateCount + 1 }
  else
    { p with
      stableCandidateKey := some key
      stableCandidateCount := 1
      stableCandidateBaseHits := current.hits }

/-- A stable admission plan under the reason its outcome is reported with. -/
def planStable (p : WorkingSetPolicy N) (key : CacheKey N) (nbytes : ℤ)
    (reason : AdmissionReason) : AdmissionPlan N :=
  { p.planAdmission key "stable" nbytes none with reason := reason }

/-- `plan_stable_candidate`, with its six outcomes. The lookup of the incumbent is
the one place that can raise, when a bucket lists a key that has no entry. -/
def planStableCandidate (key : CacheKey N) (nbytes : ℤ) :
    Exec PyError (WorkingSetPolicy N) (AdmissionPlan N) := fun p =>
  if p.config.maxSequences ≤ 0 ∨ p.config.maxBytes ≤ 0 ∨ nbytes > p.config.maxBytes then
    (.ok ⟨false, key, "stable", nbytes, [], .oversizedOrDisabled⟩, p)
  else
    match p.keysForRole "stable" with
    | [] => (.ok (p.planStable key nbytes .stableEmpty), p)
    | currentKey :: _ =>
      match p.entries.get? currentKey with
      | none => (.error (.keyError "stable bucket key without entry"), p)
      | some current =>
        if currentKey = key then (.ok (p.planStable key nbytes .stableRefresh), p)
        else if current.hits = 0 ∧ key.tokens.length > currentKey.tokens.length then
          (.ok (p.planStable key nbytes .stableColdLarger), p)
        else
          let probed := p.advanceProbation key current
          if probed.stableCandidateCount ≥ 2 then
            (.ok (probed.planStable key nbytes .stableRepeatedMiss), probed)
          else
            (.ok ⟨false, key, "stable", nbytes, [], .stableProbation⟩,
              { probed with
                stableCandidateRejections := probed.stableCandidateRejections + 1 })

/-- The entries a trim would keep. -/
def untrimmedEntries (p : WorkingSetPolicy N) (evicted : Finset (CacheKey N)) :
    List (EntryState N) :=
  (p.entries.items.filter (fun kv => kv.1 ∉ evicted)).map Prod.snd

/-- `over()` of `plan_trim`. -/
def overTargets (p : WorkingSetPolicy N) (targetSequences : ℕ) (targetBytes : ℕ)
    (evicted : Finset (CacheKey N)) : Bool :=
  let kept := p.untrimmedEntries evicted
  kept.length > targetSequences ∨ (kept.map EntryState.nbytes).sum > targetBytes

/-- The trim loop, with fuel as in `capacityLoop`; running out of victims ends it. -/
def trimLoop (p : WorkingSetPolicy N) (targetSequences targetBytes : ℕ)
    (guarded : Finset (CacheKey N)) : ℕ → List (Eviction N) → List (Eviction N)
  | 0, evictions => evictions
  | fuel + 1, evictions =>
    let evicted := evictedKeys evictions
    if p.overTargets targetSequences targetBytes evicted then
      match p.nextVictim (evicted ∪ guarded) with
      | some victim =>
        p.trimLoop targetSequences targetBytes guarded fuel (evictions ++ [⟨victim, .trim⟩])
      | none =>
        match p.nextVictim evicted with
        | some victim =>
          p.trimLoop targetSequences targetBytes guarded fuel (evictions ++ [⟨victim, .trim⟩])
        | none => evictions
    else evictions

/-- `plan_trim`. A missing target is the limit itself, a negative one is zero. -/
def planTrim (p : WorkingSetPolicy N) (nSequences nBytes : Option ℤ) :
    Except PyError (TrimPlan N) :=
  let targetSequences := (nSequences.map Int.toNat).getD p.config.maxSequences
  let targetBytes := (nBytes.map Int.toNat).getD p.config.maxBytes
  let working := p.workingKeys
  if ∃ k ∈ working, p.entries.get? k = none then
    .error (.keyError "bucket key without entry")
  else
    let workingBytes := ∑ k ∈ working, ((p.entries.get? k).map EntryState.nbytes).getD 0
    let guarded :=
      if working.card > targetSequences ∨ workingBytes > targetBytes then ∅ else working
    .ok ⟨p.trimLoop targetSequences targetBytes guarded p.orderedKeys.length []⟩

end WorkingSetPolicy

end StateBraid.Policy
