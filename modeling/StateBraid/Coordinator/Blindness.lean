import StateBraid.Coordinator.Operations
import StateBraid.Library.Relational
import StateBraid.Policy.Relabel

/-!
# What the coordinator makes of unranked labels

Two runs of the coordinator are compared, one with the role labels the callers chose
and one with every label outside the ranked roles replaced. As long as no two labels
in use are merged, the runs return the same values and keep the same residents after
every step, for every backend whose calls do not look at the label. Merging two labels
moves their keys into one bucket, and a bucket keeps its place in the creation order
of the buckets: with two labels the victim can be a later admission of the first label,
with one label it is always the oldest. So a law without that condition fails.
-/

namespace StateBraid.Coordinator
open Library Policy
open Exec (Simulates Matched)

variable {N σ π τ α α' : Type} [DecidableEq N]

/-- A label without a rank of its own, such as `goal`, `rules` or `evidence`. -/
abbrev Label := {r : Role // r ∉ rankedRoles}

/-- Replace the unranked labels. -/
def renameRole (f : Label → Label) (r : Role) : Role :=
  if h : r ∈ rankedRoles then r else f ⟨r, h⟩

/-- The roles an operation stores entries under. -/
def Operation.roles : Operation N π → List Role
  | .admitEntry _ _ role _ _ => [role]
  | .admitStableCandidate _ _ _ => ["stable"]
  | _ => []

/-- The same call with the role its caller passes replaced. -/
def Operation.rename (ρ : Role → Role) : Operation N π → Operation N π
  | .admitEntry key payload role nbytes predecessor =>
    .admitEntry key payload (ρ role) nbytes predecessor
  | op => op

/-- No label outside `U` occurs in a run. -/
def UsesLabels (U : Set Label) (ops : List (Operation N π)) : Prop :=
  ∀ op ∈ ops, ∀ l : Label, (l : Role) ∈ op.roles → l ∈ U

/-- What a caller sees of a run: after every step its result, a returned value or the
exception, and the resident keys. -/
def observations (B : TransactionalBackend N σ π τ) :
    CacheCoordinator N σ → List (Operation N π) →
      List (Except PyError (Reply N) × Finset (CacheKey N))
  | _, [] => []
  | c, op :: ops =>
    ((perform B op c).1, (stepOperation B c op).policy.entries.keys.toFinset) ::
      observations B (stepOperation B c op) ops

/-- The calls of a backend do not tell a role from its replacement: states related by `R`,
with snapshots related by `T`, return alike and raise alike. -/
structure Indifferent (B : TransactionalBackend N σ π τ) (ρ : Role → Role) (R : σ → σ → Prop)
    (T : τ → τ → Prop) : Prop where
  capture : ∀ k, Simulates R (Option.Rel T) (B.capture k) (B.capture k)
  restore : ∀ k {t t'}, T t t' → Simulates R Eq (B.restore k t) (B.restore k t')
  remove : ∀ k, Simulates R Eq (B.remove k) (B.remove k)
  insert : ∀ k x r, Simulates R Eq (B.insert k x r) (B.insert k x (ρ r))
  forget : ∀ k, Simulates R Eq (B.forget k) (B.forget k)

/-- Replacing labels along `f` is invisible: every run without pin roles whose labels are
in `U` returns and keeps the same as its replay with the labels replaced. -/
def Blind (U : Set Label) (f : Label → Label) : Prop :=
  ∀ (N σ π τ : Type) [DecidableEq N] (B : TransactionalBackend N σ π τ) (b : σ)
    (R : σ → σ → Prop) (T : τ → τ → Prop), R b b → Indifferent B (renameRole f) R T →
    ∀ config : PolicyConfig, config.pinRoles = ∅ → ∀ ops : List (Operation N π),
      UsesLabels U ops →
        observations B ⟨.new config, b⟩ (ops.map (Operation.rename (renameRole f))) =
          observations B ⟨.new config, b⟩ ops

/-! ## Two coordinators in step -/

/-- The second policy is the first one renamed, and the backends are related. -/
def Coupled (g : Relabeling) (R : σ → σ → Prop) (c c' : CacheCoordinator N σ) : Prop :=
  c'.policy = c.policy.relabel g ∧ R c.backend c'.backend

/-- Captures of the two runs: the same keys in the same order, with related snapshots. -/
def CapturedAlike (T : τ → τ → Prop) (captured captured' : Dict (CacheKey N) (Option τ)) : Prop :=
  List.Forall₂ (fun kv kv' => kv.1 = kv'.1 ∧ Option.Rel T kv.2 kv'.2) captured.items
    captured'.items

theorem CapturedAlike.insert {T : τ → τ → Prop} {d d' : Dict (CacheKey N) (Option τ)}
    (h : CapturedAlike T d d') (k : CacheKey N) {t t' : Option τ} (ht : Option.Rel T t t') :
    CapturedAlike T (d.insert k t) (d'.insert k t') := by
  obtain ⟨l, _⟩ := d
  obtain ⟨l', _⟩ := d'
  simp only [CapturedAlike, Dict.insert] at *
  induction h with
  | nil => exact .cons ⟨rfl, ht⟩ .nil
  | @cons kv kv' l l' hkv hrest ih =>
    obtain ⟨a, w⟩ := kv
    obtain ⟨a', w'⟩ := kv'
    obtain ⟨rfl, hw⟩ := hkv
    by_cases hak : a = k
    · simp only [Dict.insertItems, if_pos hak]
      exact .cons ⟨rfl, ht⟩ hrest
    · simp only [Dict.insertItems, if_neg hak]
      exact .cons ⟨rfl, hw⟩ (ih (List.nodup_cons.mp ‹_›).2 (List.nodup_cons.mp ‹_›).2)

/-- The equations of an attempt: commit, or restore the policy and roll the backend back. -/
theorem attempt_apply (B : TransactionalBackend N σ π τ) (affected : List (CacheKey N))
    (captured : Dict (CacheKey N) (Option τ)) (mutation : Exec PyError σ Unit)
    (commit : WorkingSetPolicy N → WorkingSetPolicy N) (c : CacheCoordinator N σ) :
    attempt B c.policy.captureState affected captured mutation commit c =
      match mutation c.backend with
      | (.ok _, b) => (.ok (), ⟨commit c.policy, b⟩)
      | (.error e, b) =>
        match B.rollback affected captured b with
        | (.ok _, b') => (.error e, ⟨c.policy, b'⟩)
        | (.error e', b') => (.error e', ⟨c.policy, b'⟩) := by
  have hrestore := WorkingSetPolicy.restoreState_captureState c.policy c.policy rfl
  rcases hmutation : mutation c.backend with ⟨_ | _, b⟩
  · rcases hrollback : B.rollback affected captured b with ⟨_ | _, b'⟩ <;>
      simp [attempt, Exec.tryExcept, restoreBackendAndPolicy, Exec.bind_apply, onBackend,
        Exec.zoom, hmutation, hrestore, hrollback]
  · simp [attempt, Exec.tryExcept, Exec.bind_apply, onBackend, Exec.zoom, hmutation]

/-- A backend call does not see the policy. -/
theorem onBackend_apply {N σ α : Type} (m : Exec PyError σ α) (c : CacheCoordinator N σ) :
    onBackend m c = ((m c.backend).1, ⟨c.policy, (m c.backend).2⟩) := rfl

theorem replyWith_simulates {N σ σ' α : Type} {R : σ → σ' → Prop}
    {m : Exec PyError σ α} {m' : Exec PyError σ' α} (h : Simulates R Eq m m') (f : α → Reply N) :
    Simulates R Eq (replyWith f m) (replyWith f m') :=
  h.bind fun _ _ ha => .pure (congrArg f ha)

section Step

variable {N σ π τ α α' : Type} {B : TransactionalBackend N σ π τ} {ρ : Role → Role}
  {R : σ → σ → Prop} {T : τ → τ → Prop} (g : Relabeling)

theorem onBackend_simulates {Q : α → α' → Prop} {m : Exec PyError σ α} {m' : Exec PyError σ α'}
    (h : Simulates R Q m m') :
    Simulates (Coupled (N := N) g R) Q (onBackend m) (onBackend m') := by
  rintro c c' ⟨hpolicy, hbackend⟩
  rw [onBackend_apply, onBackend_apply]
  obtain ⟨a, a', b, b', hrun, hrun', ha, hb⟩ | ⟨e, b, b', hrun, hrun', hb⟩ :=
    (h _ _ hbackend).cases
  · rw [hrun, hrun']
    exact ⟨ha, hpolicy, hb⟩
  · rw [hrun, hrun']
    exact ⟨rfl, hpolicy, hb⟩

namespace Indifferent

theorem rollback (h : Indifferent B ρ R T) (affected : List (CacheKey N))
    {captured captured' : Dict (CacheKey N) (Option τ)}
    (hcaptured : CapturedAlike T captured captured') :
    Simulates R Eq (B.rollback affected captured) (B.rollback affected captured') := by
  refine Simulates.bind (Q := Eq) (Simulates.forEach (S := Eq)
    (List.forall₂_same.mpr fun _ _ => rfl) ?_) fun _ _ _ => Simulates.forEach hcaptured ?_
  · rintro k _ rfl
    exact (h.remove k).tryExcept fun _ => .pure rfl
  · rintro ⟨k, t⟩ ⟨k', t'⟩ ⟨rfl, ht⟩
    cases ht with
    | none => exact .pure rfl
    | some ht => exact h.restore k ht

theorem mutate (h : Indifferent B ρ R T) {plan : AdmissionPlan N}
    (hrole : ρ plan.role = g plan.role) (payload : π) :
    Simulates R Eq (B.mutate plan payload) (B.mutate (plan.relabel g) payload) := by
  refine Simulates.bind (Q := Eq) (Simulates.forEach (S := Eq)
    (List.forall₂_same.mpr fun _ _ => rfl) ?_) fun _ _ _ =>
    (h.remove plan.key).bind fun _ _ _ => ?_
  · rintro eviction _ rfl
    exact h.remove eviction.key
  · have hinsert := h.insert plan.key payload plan.role
    rw [hrole] at hinsert
    exact hinsert

variable [DecidableEq N]

theorem captureAll (h : Indifferent B ρ R T) (affected : List (CacheKey N)) :
    Simulates R (CapturedAlike T) (B.captureAll affected) (B.captureAll affected) := by
  refine Simulates.foldEach (S := Eq) (List.forall₂_same.mpr fun _ _ => rfl) ?_ .nil
  rintro d d' k _ hd rfl
  exact (h.capture k).bind fun _ _ ht => .pure (hd.insert k ht)

/-- An attempt commits in both runs or rolls both back. -/
theorem attempt (h : Indifferent B ρ R T) {affected : List (CacheKey N)}
    {captured captured' : Dict (CacheKey N) (Option τ)} {mutation mutation' : Exec PyError σ Unit}
    {commit commit' : WorkingSetPolicy N → WorkingSetPolicy N}
    (hcaptured : CapturedAlike T captured captured') (hmutation : Simulates R Eq mutation mutation')
    (hcommit : ∀ p, commit' (p.relabel g) = (commit p).relabel g) {c c' : CacheCoordinator N σ}
    (hc : Coupled g R c c') :
    Matched (Coupled g R) Eq
      (Coordinator.attempt B c.policy.captureState affected captured mutation commit c)
      (Coordinator.attempt B c'.policy.captureState affected captured' mutation' commit' c') := by
  obtain ⟨hpolicy, hbackend⟩ := hc
  rw [attempt_apply, attempt_apply, hpolicy]
  obtain ⟨_, _, b, b', hrun, hrun', _, hb⟩ | ⟨e, b, b', hrun, hrun', hb⟩ :=
    (hmutation _ _ hbackend).cases
  · rw [hrun, hrun']
    exact ⟨rfl, hcommit c.policy, hb⟩
  · rw [hrun, hrun']
    obtain ⟨_, _, b₂, b₂', hback, hback', _, hb₂⟩ | ⟨e', b₂, b₂', hback, hback', hb₂⟩ :=
      (h.rollback affected hcaptured b b' hb).cases
    · simp only [hback, hback']
      exact ⟨rfl, rfl, hb₂⟩
    · simp only [hback, hback']
      exact ⟨rfl, rfl, hb₂⟩

theorem transaction (h : Indifferent B ρ R T) (affected : List (CacheKey N))
    {mutation mutation' : Exec PyError σ Unit}
    {commit commit' : WorkingSetPolicy N → WorkingSetPolicy N}
    (hmutation : Simulates R Eq mutation mutation')
    (hcommit : ∀ p, commit' (p.relabel g) = (commit p).relabel g) :
    Simulates (Coupled g R) Eq (Coordinator.transaction B affected mutation commit)
      (Coordinator.transaction B affected mutation' commit') := by
  intro c c' hc
  unfold Coordinator.transaction
  rw [Exec.gets_bind_apply, Exec.gets_bind_apply]
  obtain ⟨captured, captured', b, b', hrun, hrun', hcaptured, hb⟩ | ⟨e, b, b', hrun, hrun', hb⟩ :=
    (h.captureAll affected _ _ hc.2).cases
  · have hcapture : onBackend (B.captureAll affected) c = (.ok captured, ⟨c.policy, b⟩) := by
      rw [onBackend_apply, hrun]
    have hcapture' : onBackend (B.captureAll affected) c' = (.ok captured', ⟨c'.policy, b'⟩) := by
      rw [onBackend_apply, hrun']
    rw [Exec.bind_of_ok hcapture, Exec.bind_of_ok hcapture']
    have hbetween : Coupled g R (⟨c.policy, b⟩ : CacheCoordinator N σ) ⟨c'.policy, b'⟩ :=
      ⟨hc.1, hb⟩
    exact h.attempt g hcaptured hmutation hcommit hbetween
  · have hcapture : onBackend (B.captureAll affected) c = (.error e, ⟨c.policy, b⟩) := by
      rw [onBackend_apply, hrun]
    have hcapture' : onBackend (B.captureAll affected) c' = (.error e, ⟨c'.policy, b'⟩) := by
      rw [onBackend_apply, hrun']
    rw [Exec.bind_of_error hcapture, Exec.bind_of_error hcapture']
    exact ⟨rfl, hc.1, hb⟩

theorem admitPlan (h : Indifferent B ρ R T) {plan : AdmissionPlan N}
    (hrole : ρ plan.role = g plan.role) (payload : π) :
    Simulates (Coupled g R) Eq (Coordinator.admitPlan B plan payload)
      (Coordinator.admitPlan B (plan.relabel g) payload) := by
  have haccepted : (plan.relabel g).accepted = plan.accepted := rfl
  unfold Coordinator.admitPlan
  rw [haccepted]
  split_ifs
  · exact (h.transaction g (affectedKeys plan) (h.mutate g hrole payload)
      fun p => p.commit_relabel g plan).bind fun _ _ _ => .pure rfl
  · exact .pure rfl

theorem trim (h : Indifferent B ρ R T) (plan : TrimPlan N) :
    Simulates (Coupled g R) Eq (Coordinator.trim B plan) (Coordinator.trim B plan) := by
  unfold Coordinator.trim
  split_ifs
  · exact .pure rfl
  · refine (h.transaction g _ (Simulates.forEach (S := Eq) (List.forall₂_same.mpr fun _ _ => rfl) ?_)
      fun p => p.commitTrim_relabel g plan).bind fun _ _ _ => .pure rfl
    rintro k _ rfl
    exact h.remove k

theorem forgetRemoteKey (h : Indifferent B ρ R T) (removed : List (CacheKey N)) (k : CacheKey N) :
    Simulates (Coupled g R) Eq (Coordinator.forgetRemoteKey B removed k)
      (Coordinator.forgetRemoteKey B removed k) := by
  refine (onBackend_simulates g (h.capture k)).bind fun t t' ht => ?_
  cases ht with
  | none => exact .pure rfl
  | @some t t' ht =>
    intro c c' hc
    have hempty : CapturedAlike (N := N) T .empty .empty := .nil
    have hcaptured : CapturedAlike (N := N) T (Dict.empty.insert k (some t))
        (Dict.empty.insert k (some t')) := hempty.insert k (.some ht)
    dsimp only
    rw [Exec.gets_bind_apply, Exec.gets_bind_apply]
    refine Matched.bind (h.attempt g hcaptured (h.forget k) (fun p => ?_) hc)
      fun _ _ _ => .pure rfl
    exact p.commitTrim_relabel g ⟨[⟨k, .remoteEvicted⟩]⟩

theorem admitEntry (h : Indifferent B ρ R T) (key : CacheKey N) (payload : π) {role : Role}
    (hrole : ρ role = g role) (nbytes : ℤ) (predecessor : Option (CacheKey N)) :
    Simulates (Coupled g R) Eq (Coordinator.admitEntry B key payload role nbytes predecessor)
      (Coordinator.admitEntry B key payload (g role) nbytes predecessor) := by
  intro c c' hc
  have hplan : ρ (c.policy.planAdmission key role nbytes predecessor).role =
      g (c.policy.planAdmission key role nbytes predecessor).role := by
    rwa [(c.policy.planAdmission_spec key role nbytes predecessor).2.1]
  unfold Coordinator.admitEntry
  rw [Exec.gets_bind_apply, Exec.gets_bind_apply, hc.1, WorkingSetPolicy.planAdmission_relabel]
  exact h.admitPlan g hplan payload c c' hc

theorem admitStableCandidate (h : Indifferent B ρ R T) (hstable : ρ "stable" = g "stable")
    (key : CacheKey N) (payload : π) (nbytes : ℤ) :
    Simulates (Coupled g R) Eq (Coordinator.admitStableCandidate B key payload nbytes)
      (Coordinator.admitStableCandidate B key payload nbytes) := by
  intro c c' hc
  rw [admitStableCandidate_apply, admitStableCandidate_apply, hc.1,
    WorkingSetPolicy.planStableCandidate_relabel]
  rcases hrun : WorkingSetPolicy.planStableCandidate key nbytes c.policy with ⟨_ | plan, policy⟩
  · exact ⟨rfl, rfl, hc.2⟩
  · have hplan : ρ plan.role = g plan.role := by
      rwa [(WorkingSetPolicy.planStableCandidate_plan hrun).2]
    exact h.admitPlan g hplan payload _ _ ⟨rfl, hc.2⟩

theorem trimTo (h : Indifferent B ρ R T) (nSequences nBytes : Option ℤ) :
    Simulates (Coupled g R) Eq (Coordinator.trimTo B nSequences nBytes)
      (Coordinator.trimTo B nSequences nBytes) := by
  intro c c' hc
  unfold Coordinator.trimTo
  rw [hc.1, WorkingSetPolicy.planTrim_relabel]
  cases c.policy.planTrim nSequences nBytes with
  | error e => exact ⟨rfl, hc⟩
  | ok plan => exact h.trim g plan c c' hc

/-- One operation, for a role and for its replacement. -/
theorem perform (h : Indifferent B ρ R T) (op : Operation N π)
    (hrole : ∀ r ∈ op.roles, ρ r = g r) :
    Simulates (Coupled g R) Eq (Coordinator.perform B op)
      (Coordinator.perform B (op.rename g)) := by
  cases op with
  | admitEntry key payload role nbytes predecessor =>
    have hadmit := h.admitEntry g key payload (hrole role List.mem_cons_self) nbytes predecessor
    exact replyWith_simulates hadmit _
  | admitStableCandidate key payload nbytes =>
    have hadmit := h.admitStableCandidate g (hrole _ List.mem_cons_self) key payload nbytes
    exact replyWith_simulates hadmit _
  | observeHit key =>
    refine replyWith_simulates ?_ _
    intro c c' hc
    unfold observeHit
    rw [hc.1, WorkingSetPolicy.observeHit_relabel]
    exact ⟨rfl, rfl, hc.2⟩
  | trimTo nSequences nBytes => exact replyWith_simulates (h.trimTo g nSequences nBytes) _
  | forgetRemote keys =>
    refine replyWith_simulates ?_ _
    refine Simulates.foldEach (S := Eq) (List.forall₂_same.mpr fun _ _ => rfl) ?_ rfl
    rintro removed _ k _ rfl rfl
    exact h.forgetRemoteKey g removed k

end Indifferent

end Step

/-! ## Whole runs -/

/-- In step from the start, the two runs show the same. -/
theorem observations_rename {B : TransactionalBackend N σ π τ} {ρ : Role → Role}
    {R : σ → σ → Prop} {T : τ → τ → Prop} (g : Relabeling) (h : Indifferent B ρ R T)
    (ops : List (Operation N π)) (hroles : ∀ op ∈ ops, ∀ r ∈ op.roles, ρ r = g r)
    {c c' : CacheCoordinator N σ} (hc : Coupled g R c c') :
    observations B c' (ops.map (Operation.rename g)) = observations B c ops := by
  induction ops generalizing c c' with
  | nil => rfl
  | cons op ops ih =>
    have hstep := h.perform g op (hroles op List.mem_cons_self) c c' hc
    have hkeys : (stepOperation B c' (op.rename g)).policy.entries.keys =
        (stepOperation B c op).policy.entries.keys := by
      rw [stepOperation, hstep.state.1, WorkingSetPolicy.relabel_entries_keys]
      rfl
    have hrest := ih (fun op hop => hroles op (List.mem_cons_of_mem _ hop)) hstep.state
    rw [List.map_cons, observations, observations, ← hstep.result, hkeys]
    exact congrArg _ hrest

theorem renameRole_label (f : Label → Label) (l : Label) : renameRole f l = f l := by
  rw [renameRole, dif_neg l.2]

theorem renameRole_ranked (f : Label → Label) {r : Role} (h : r ∈ rankedRoles) :
    renameRole f r = r := by
  rw [renameRole, dif_pos h]

/-- The labels of a run are finitely many, so an injective replacement of them extends to
a renaming of all roles. -/
theorem exists_relabeling {N π : Type} (f : Label → Label) {U : Set Label} (hinj : Set.InjOn f U)
    (ops : List (Operation N π)) (hops : UsesLabels U ops) :
    ∃ g : Relabeling, ∀ op ∈ ops, ∀ r ∈ op.roles, renameRole f r = g r := by
  let used : Set Label := {l | ∃ op ∈ ops, (l : Role) ∈ op.roles}
  have hused : used ⊆ U := fun l ⟨op, hop, hl⟩ => hops op hop l hl
  have hfinite : used.Finite := by
    have hroles : ((ops.flatMap Operation.roles).toFinset : Set Role).Finite :=
      Finset.finite_toSet _
    refine (hroles.preimage Subtype.val_injective.injOn).subset fun l ⟨op, hop, hl⟩ => ?_
    simpa using ⟨op, hop, hl⟩
  have : Finite used := hfinite
  obtain ⟨perm, hperm⟩ := Equiv.Perm.exists_extending_pair (fun l : used => (l : Label))
    (fun l : used => f l) Subtype.val_injective (hinj.mono hused).injective
  refine ⟨⟨(Equiv.Perm.ofSubtype perm).toEmbedding, fun r hr => ?_⟩, fun op hop r hr => ?_⟩
  · exact Equiv.Perm.ofSubtype_apply_of_not_mem perm (not_not_intro hr)
  · by_cases hranked : r ∈ rankedRoles
    · rw [renameRole_ranked f hranked]
      exact (Equiv.Perm.ofSubtype_apply_of_not_mem perm (not_not_intro hranked)).symm
    · have hlabel := hperm ⟨⟨r, hranked⟩, op, hop, hr⟩
      rw [renameRole, dif_neg hranked]
      exact ((Equiv.Perm.ofSubtype_apply_coe perm ⟨r, hranked⟩).trans
        (congrArg Subtype.val hlabel)).symm

theorem Operation.rename_congr {N π : Type} {ρ ρ' : Role → Role} {op : Operation N π}
    (h : ∀ r ∈ op.roles, ρ r = ρ' r) : op.rename ρ = op.rename ρ' := by
  cases op with
  | admitEntry key payload role nbytes predecessor =>
    rw [Operation.rename, Operation.rename, h role List.mem_cons_self]
  | _ => rfl

/-- Labels that stay apart when they are replaced have no influence. -/
theorem blind_of_injOn {U : Set Label} {f : Label → Label} (hinj : Set.InjOn f U) : Blind U f := by
  intro N σ π τ _ B b R T hb h config hpins ops hops
  obtain ⟨g, hg⟩ := exists_relabeling f hinj ops hops
  have hrename : ops.map (Operation.rename (renameRole f)) = ops.map (Operation.rename g) :=
    List.map_congr_left fun op hop => Operation.rename_congr (hg op hop)
  have hstart : (WorkingSetPolicy.new config : WorkingSetPolicy N).relabel g = .new config := by
    rw [WorkingSetPolicy.relabel]
    exact congrArg WorkingSetPolicy.new (PolicyConfig.relabel_of_no_pins g hpins)
  rw [hrename]
  exact observations_rename g h ops hg ⟨hstart.symm, hb⟩

/-! ## Two labels made one -/

/-- A backend that keeps the payloads under their keys and ignores the role. -/
def unlabelledStore : TransactionalBackend N (Dict (CacheKey N) π) π π where
  capture k := Exec.gets (fun d => d.get? k)
  restore k x := Exec.modify (fun d => d.insert k x)
  remove k := Exec.modify (fun d => d.erase k)
  insert k x _ := Exec.modify (fun d => d.insert k x)
  forgetRemote := none

theorem unlabelledStore_indifferent (ρ : Role → Role) :
    Indifferent (unlabelledStore (N := N) (π := π)) ρ Eq Eq where
  capture k := by
    rintro s _ rfl
    have hrel (x : Option π) : Option.Rel Eq x x := by
      cases x with
      | none => exact .none
      | some x => exact .some rfl
    exact ⟨hrel _, rfl⟩
  restore k t t' ht := ht ▸ .refl _
  remove _ := .refl _
  insert _ _ _ := .refl _
  forget _ := .refl _

namespace Sample

/-- Three sequences and no pin roles. -/
def unpinned : PolicyConfig := PolicyConfig.new 3 100 ∅ none

def labelled (token : ℤ) (role : Role) : Operation ℕ Unit :=
  .admitEntry ⟨0, [token]⟩ () role 1 none

/-- Admissions under one label, another, and the first again, then a trim to one entry. -/
def alternating (r s : Role) : List (Operation ℕ Unit) :=
  [labelled 1 r, labelled 2 s, labelled 3 r, .trimTo (some 1) none]

/-- What is observed of such a run. -/
def alternatingSeen (r s : Role) : List (Except PyError (Reply ℕ) × Finset (CacheKey ℕ)) :=
  observations unlabelledStore ⟨.new unpinned, .empty⟩ (alternating r s)

def goal : Label := ⟨"goal", by decide⟩

def evidence : Label := ⟨"evidence", by decide⟩

/-- The trim evicts both `goal` entries before the `evidence` entry between them. -/
theorem alternatingSeen_two :
    (alternatingSeen goal evidence).map Prod.snd =
      [{⟨0, [1]⟩}, {⟨0, [1]⟩, ⟨0, [2]⟩}, {⟨0, [1]⟩, ⟨0, [2]⟩, ⟨0, [3]⟩}, {⟨0, [2]⟩}] := by
  decide +kernel

/-- Under one label it evicts the two older entries. -/
theorem alternatingSeen_one :
    (alternatingSeen goal goal).map Prod.snd =
      [{⟨0, [1]⟩}, {⟨0, [1]⟩, ⟨0, [2]⟩}, {⟨0, [1]⟩, ⟨0, [2]⟩, ⟨0, [3]⟩}, {⟨0, [3]⟩}] := by
  decide +kernel

theorem alternatingSeen_ne : alternatingSeen goal goal ≠ alternatingSeen goal evidence := by
  intro h
  have hkeys := congrArg (List.map Prod.snd) h
  rw [alternatingSeen_one, alternatingSeen_two] at hkeys
  revert hkeys
  decide

theorem usesLabels_alternating {U : Set Label} {r s : Label} (hr : r ∈ U) (hs : s ∈ U) :
    UsesLabels U (alternating r s) := by
  intro op hop l hl
  have hlabel : l = r ∨ l = s := by
    simp only [alternating, labelled, List.mem_cons, List.not_mem_nil, or_false] at hop
    rcases hop with rfl | rfl | rfl | rfl <;> simp_all [Operation.roles, Subtype.val_inj]
  rcases hlabel with rfl | rfl
  · exact hr
  · exact hs

/-- Replacing the two labels of the run shows the run of the replaced labels. -/
theorem alternatingSeen_blind {U : Set Label} {f : Label → Label} (h : Blind U f) {r s : Label}
    (hr : r ∈ U) (hs : s ∈ U) : alternatingSeen (f r) (f s) = alternatingSeen r s := by
  have hrun := h ℕ _ Unit Unit unlabelledStore .empty Eq Eq rfl (unlabelledStore_indifferent _)
    unpinned rfl (alternating r s) (usesLabels_alternating hr hs)
  have hops : (alternating r s).map (Operation.rename (renameRole f)) =
      alternating (f r) (f s) := by
    simp only [alternating, labelled, List.map_cons, List.map_nil, Operation.rename,
      renameRole_label]
  rwa [hops] at hrun

/-- Every two different labels show what `goal` and `evidence` show. -/
theorem alternatingSeen_of_ne {r s : Label} (h : r ≠ s) :
    alternatingSeen r s = alternatingSeen goal evidence := by
  let f : Label → Label := fun l => if l = goal then r else s
  have hne : evidence ≠ goal := by decide
  have hinj : Set.InjOn f {goal, evidence} := by
    rintro x (rfl | rfl) y (rfl | rfl) hxy
    · rfl
    · exact absurd hxy (by simpa [f, hne] using h)
    · exact absurd hxy.symm (by simpa [f, hne] using h)
    · rfl
  have hrun := alternatingSeen_blind (blind_of_injOn hinj) (r := goal) (s := evidence)
    (by simp) (by simp)
  simpa [f, hne] using hrun

theorem alternatingSeen_self (r : Label) : alternatingSeen r r = alternatingSeen goal goal := by
  have hinj : Set.InjOn (fun _ : Label => r) {goal} := Set.injOn_singleton _ _
  exact alternatingSeen_blind (blind_of_injOn hinj) rfl rfl

end Sample

open Sample

/-- The labels in use have no influence on a run exactly when no two of them are
replaced by one. -/
theorem blind_iff_injOn (U : Set Label) (f : Label → Label) : Blind U f ↔ Set.InjOn f U := by
  refine ⟨fun h r hr s hs hrs => ?_, blind_of_injOn⟩
  by_contra hne
  have hmerged := alternatingSeen_blind h hr hs
  rw [← hrs, alternatingSeen_self, alternatingSeen_of_ne hne] at hmerged
  exact alternatingSeen_ne hmerged

/-- One label instead of two, and another entry stays resident. -/
theorem merged_labels_change_residents :
    (observations unlabelledStore ⟨.new unpinned, .empty⟩
        (alternating "goal" "evidence")).map Prod.snd =
      [{⟨0, [1]⟩}, {⟨0, [1]⟩, ⟨0, [2]⟩}, {⟨0, [1]⟩, ⟨0, [2]⟩, ⟨0, [3]⟩}, {⟨0, [2]⟩}] ∧
    (observations unlabelledStore ⟨.new unpinned, .empty⟩
        ((alternating "goal" "evidence").map (Operation.rename (renameRole fun _ => goal)))).map
          Prod.snd =
      [{⟨0, [1]⟩}, {⟨0, [1]⟩, ⟨0, [2]⟩}, {⟨0, [1]⟩, ⟨0, [2]⟩, ⟨0, [3]⟩}, {⟨0, [3]⟩}] :=
  ⟨alternatingSeen_two, by decide +kernel⟩

end StateBraid.Coordinator
