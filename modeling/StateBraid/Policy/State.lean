import Mathlib.Data.Finset.Basic
import StateBraid.Library.Dict

/-!
# The working-set policy: residents, role buckets and counters

The state of `WorkingSetPolicy` and the operations that change it. One logical set
of resident keys is kept three times: in the entry table, in one insertion-ordered
bucket per role, and in the byte total. `removeEntry` and `commit` are the only
places that touch all three.
-/
namespace StateBraid.Policy
open Library

/-- A mechanical cache identity: a backend-defined namespace and exact token ids. -/
structure CacheKey (N : Type) where
  cacheNamespace : N
  tokens : List ℤ
  deriving DecidableEq

instance {N : Type} [DecidableEq N] (key : CacheKey N) (keys : List (CacheKey N)) :
    Decidable (key ∈ keys) := List.instDecidableMemOfLawfulBEq key keys

/-- `matched_prefix_key`: the prefix that served a hit, from the remainder of the prompt. -/
def matchedPrefixKey {N : Type} (cacheNamespace : N) (prompt remaining : List ℤ) :
    Option (CacheKey N) :=
  let matchedLen : ℤ := max 0 (prompt.length - remaining.length)
  if matchedLen = 0 then none else some ⟨cacheNamespace, prompt.take matchedLen.toNat⟩

/-- Role labels are free text; only five of them have a rank of their own. -/
abbrev Role := String

structure EntryState (N : Type) where
  key : CacheKey N
  role : Role
  nbytes : ℤ
  pinned : Bool
  hits : ℕ
  deriving DecidableEq

/-- Why a planned eviction was written down. -/
inductive EvictionReason
  | stableRotate | activeSuccessor | pinQuota | capacity | trim | remoteEvicted
  deriving DecidableEq

structure Eviction (N : Type) where
  key : CacheKey N
  reason : EvictionReason
  deriving DecidableEq

/-- The reason text of an admission plan. -/
inductive AdmissionReason
  | admitted | zeroCapacity | oversized | cannotFit | oversizedOrDisabled
  | stableEmpty | stableRefresh | stableColdLarger | stableRepeatedMiss | stableProbation
  deriving DecidableEq

/-- `plan.reason.startswith("stable_")`. -/
def AdmissionReason.isStable : AdmissionReason → Bool
  | .stableEmpty | .stableRefresh | .stableColdLarger | .stableRepeatedMiss
  | .stableProbation => true
  | _ => false

structure AdmissionPlan (N : Type) where
  accepted : Bool
  key : CacheKey N
  role : Role
  nbytes : ℤ
  evictions : List (Eviction N)
  reason : AdmissionReason
  deriving DecidableEq

structure TrimPlan (N : Type) where
  evictions : List (Eviction N)
  deriving DecidableEq

/-- The constructor arguments after clamping. The two bounds are what the clamping
guarantees, so that an inconsistent reserve cannot be written down. -/
structure PolicyConfig where
  maxSequences : ℕ
  maxBytes : ℕ
  pinRoles : Finset Role
  transientReserve : ℕ
  pinLimit : ℕ
  reserve_le : transientReserve ≤ maxSequences
  pinLimit_eq : pinLimit = maxSequences - transientReserve

/-- `WorkingSetPolicy.__init__`: clamp the limits and choose the default reserve. -/
def PolicyConfig.new (maxSequences maxBytes : ℤ) (pinRoles : Finset Role)
    (transientReserve : Option ℤ) : PolicyConfig :=
  let sequences := maxSequences.toNat
  let defaultReserve : ℤ := if sequences ≥ 4 then 2 else if sequences ≥ 2 then 1 else 0
  let reserve := (min (transientReserve.getD defaultReserve) sequences).toNat
  { maxSequences := sequences
    maxBytes := maxBytes.toNat
    pinRoles := pinRoles
    transientReserve := reserve
    pinLimit := sequences - reserve
    reserve_le := by
      have : min (transientReserve.getD defaultReserve) (sequences : ℤ) ≤ sequences :=
        min_le_right _ _
      omega
    pinLimit_eq := rfl }

/-- Residents, role buckets, the byte total, the eviction counters and the
probation of one stable candidate. -/
structure WorkingSetPolicy (N : Type) where
  config : PolicyConfig
  entries : Dict (CacheKey N) (EntryState N)
  buckets : Dict Role (Dict (CacheKey N) Unit)
  nbytes : ℤ
  pinEvictions : ℕ
  pinQuotaEvictions : ℕ
  activeSuccessorEvictions : ℕ
  stableCandidatePromotions : ℕ
  stableCandidateRejections : ℕ
  stableCandidateKey : Option (CacheKey N)
  stableCandidateCount : ℕ
  stableCandidateBaseHits : ℕ

/-- Everything of a policy that its operations change. -/
structure PolicySnapshot (N : Type) where
  entries : Dict (CacheKey N) (EntryState N)
  buckets : Dict Role (List (CacheKey N))
  nbytes : ℤ
  pinEvictions : ℕ
  pinQuotaEvictions : ℕ
  activeSuccessorEvictions : ℕ
  stableCandidateKey : Option (CacheKey N)
  stableCandidateCount : ℕ
  stableCandidateBaseHits : ℕ
  stableCandidatePromotions : ℕ
  stableCandidateRejections : ℕ

namespace WorkingSetPolicy

variable {N : Type} [DecidableEq N]

/-- The empty policy of a configuration. -/
def new (config : PolicyConfig) : WorkingSetPolicy N where
  config := config
  entries := .empty
  buckets := .empty
  nbytes := 0
  pinEvictions := 0
  pinQuotaEvictions := 0
  activeSuccessorEvictions := 0
  stableCandidatePromotions := 0
  stableCandidateRejections := 0
  stableCandidateKey := none
  stableCandidateCount := 0
  stableCandidateBaseHits := 0

/-- The number of resident entries. -/
def nSequences (p : WorkingSetPolicy N) : ℕ := p.entries.size

/-- The keys of one role bucket, oldest admission first. -/
def keysForRole (p : WorkingSetPolicy N) (role : Role) : List (CacheKey N) :=
  ((p.buckets.get? role).getD .empty).keys

/-- Credit a hit to a resident entry. -/
def observeHit (p : WorkingSetPolicy N) (key : CacheKey N) : Bool × WorkingSetPolicy N :=
  match p.entries.get? key with
  | none => (false, p)
  | some entry =>
    (true, { p with entries := p.entries.insert key { entry with hits := entry.hits + 1 } })

/-- A field-by-field copy, as snapshots take of every entry. -/
def copyEntry (e : EntryState N) : EntryState N :=
  ⟨e.key, e.role, e.nbytes, e.pinned, e.hits⟩

def captureState (p : WorkingSetPolicy N) : PolicySnapshot N where
  entries := p.entries.mapValues copyEntry
  buckets := p.buckets.mapValues Dict.keys
  nbytes := p.nbytes
  pinEvictions := p.pinEvictions
  pinQuotaEvictions := p.pinQuotaEvictions
  activeSuccessorEvictions := p.activeSuccessorEvictions
  stableCandidateKey := p.stableCandidateKey
  stableCandidateCount := p.stableCandidateCount
  stableCandidateBaseHits := p.stableCandidateBaseHits
  stableCandidatePromotions := p.stableCandidatePromotions
  stableCandidateRejections := p.stableCandidateRejections

def restoreState (p : WorkingSetPolicy N) (snapshot : PolicySnapshot N) :
    WorkingSetPolicy N where
  config := p.config
  entries := snapshot.entries.mapValues copyEntry
  buckets := snapshot.buckets.mapValues Dict.ofKeys
  nbytes := snapshot.nbytes
  pinEvictions := snapshot.pinEvictions
  pinQuotaEvictions := snapshot.pinQuotaEvictions
  activeSuccessorEvictions := snapshot.activeSuccessorEvictions
  stableCandidateKey := snapshot.stableCandidateKey
  stableCandidateCount := snapshot.stableCandidateCount
  stableCandidateBaseHits := snapshot.stableCandidateBaseHits
  stableCandidatePromotions := snapshot.stableCandidatePromotions
  stableCandidateRejections := snapshot.stableCandidateRejections

/-- `_bucket`: a missing bucket is created at the end when it is assigned to. -/
def bucket (p : WorkingSetPolicy N) (role : Role) : Dict (CacheKey N) Unit :=
  (p.buckets.get? role).getD .empty

/-- `_remove_entry`: forget a resident in all three places. -/
def removeEntry (p : WorkingSetPolicy N) (key : CacheKey N) :
    Option (EntryState N) × WorkingSetPolicy N :=
  match p.entries.get? key with
  | none => (none, p)
  | some entry =>
    (some entry,
      { p with
        entries := p.entries.erase key
        buckets := match p.buckets.get? entry.role with
          | some b => p.buckets.insert entry.role (b.erase key)
          | none => p.buckets
        nbytes := p.nbytes - entry.nbytes })

/-- One planned eviction at commit: remove the entry, then count it by reason. -/
def commitEviction (p : WorkingSetPolicy N) (eviction : Eviction N) : WorkingSetPolicy N :=
  match p.removeEntry eviction.key with
  | (none, p) => p
  | (some removed, p) =>
    match eviction.reason with
    | .pinQuota => { p with pinQuotaEvictions := p.pinQuotaEvictions + 1 }
    | .activeSuccessor => { p with activeSuccessorEvictions := p.activeSuccessorEvictions + 1 }
    | .capacity =>
      if removed.pinned then { p with pinEvictions := p.pinEvictions + 1 } else p
    | _ => p

/-- `_reset_stable_candidate`. -/
def resetStableCandidate (p : WorkingSetPolicy N) : WorkingSetPolicy N :=
  { p with
    stableCandidateKey := none
    stableCandidateCount := 0
    stableCandidateBaseHits := 0 }

/-- Put the admitted entry last in the table and last in its role's bucket. -/
def insertEntry (p : WorkingSetPolicy N) (plan : AdmissionPlan N) : WorkingSetPolicy N :=
  let pinned := decide (plan.role ∈ p.config.pinRoles)
  { p with
    entries := p.entries.insert plan.key ⟨plan.key, plan.role, plan.nbytes, pinned, 0⟩
    buckets := p.buckets.insert plan.role ((p.bucket plan.role).insert plan.key ())
    nbytes := p.nbytes + plan.nbytes }

/-- The end of a stable admission: count a promotion and forget the candidate. -/
def commitStable (p : WorkingSetPolicy N) (plan : AdmissionPlan N) : WorkingSetPolicy N :=
  if plan.role = "stable" ∧ plan.reason.isStable then
    if plan.reason = .stableColdLarger ∨ plan.reason = .stableRepeatedMiss then
      resetStableCandidate
        { p with stableCandidatePromotions := p.stableCandidatePromotions + 1 }
    else resetStableCandidate p
  else p

/-- Apply an accepted admission plan. -/
def commit (p : WorkingSetPolicy N) (plan : AdmissionPlan N) : WorkingSetPolicy N :=
  if plan.accepted then
    let evicted := plan.evictions.foldl commitEviction p
    let cleared := (evicted.removeEntry plan.key).2
    (cleared.insertEntry plan).commitStable plan
  else p

/-- One planned eviction of a trim: every pinned victim counts. -/
def commitTrimEviction (p : WorkingSetPolicy N) (eviction : Eviction N) : WorkingSetPolicy N :=
  match p.removeEntry eviction.key with
  | (none, p) => p
  | (some removed, p) =>
    if removed.pinned then { p with pinEvictions := p.pinEvictions + 1 } else p

/-- Apply a trim plan. -/
def commitTrim (p : WorkingSetPolicy N) (plan : TrimPlan N) : WorkingSetPolicy N :=
  plan.evictions.foldl commitTrimEviction p

/-! ## Snapshots -/

/-- A snapshot misses nothing: restoring it over any later state of the same
configuration gives back the state it was taken from. -/
theorem restoreState_captureState (p q : WorkingSetPolicy N) (h : q.config = p.config) :
    q.restoreState p.captureState = p := by
  have hb : (p.buckets.mapValues Dict.keys).mapValues Dict.ofKeys = p.buckets := by
    simp [Dict.mapValues_mapValues, Dict.ofKeys_keys]
  have he : (p.entries.mapValues copyEntry).mapValues copyEntry = p.entries := by
    rw [Dict.mapValues_mapValues]
    exact Dict.mapValues_id p.entries
  cases p
  simp_all [restoreState, captureState]

end WorkingSetPolicy

end StateBraid.Policy
