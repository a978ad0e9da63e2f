import StateBraid.Coordinator.Operations

/-!
# Backends that behave as maps

The abstract backend of a transaction is a map from keys to snapshots. `view` reads
that map off a backend state, and `MapBackend` says what each call does to it: a call
that returns has its effect on its own key, a call that raises may or may not have
had it, and once one has raised (`calm`) the calls of a rollback succeed. Under these
laws a transaction either installs its plan in the map or leaves the map untouched.
-/

namespace StateBraid.Coordinator
open Library Policy

variable {N σ π τ : Type} [DecidableEq N]

/-- How a backend state is read: as a map by `view`, under an invariant `inv`. After a
call has raised, the state is `calm`. Keys outside `valid`, snapshots outside `sound` and
payloads outside `offered` are never handed to it; `stored` is the snapshot a payload
becomes. -/
structure MapSpec (N σ π τ : Type) where
  view : σ → CacheKey N → Option τ
  inv : σ → Prop
  calm : σ → Prop
  valid : CacheKey N → Prop
  sound : CacheKey N → τ → Prop
  offered : CacheKey N → π → Prop
  stored : π → Role → τ

/-- The state shows this map. -/
def MapSpec.Shows (S : MapSpec N σ π τ) (v : CacheKey N → Option τ) (s : σ) : Prop :=
  S.inv s ∧ S.view s = v

/-- The laws of the calls of a transaction. -/
structure MapBackend (B : TransactionalBackend N σ π τ) (S : MapSpec N σ π τ) : Prop where
  capture : ∀ {k} s, S.valid k → B.capture k s = (.ok (S.view s k), s)
  remove_ok : ∀ {k s s'}, S.valid k → S.inv s → B.remove k s = (.ok (), s') →
    S.inv s' ∧ ∀ j, S.view s' j = if j = k then none else S.view s j
  remove_error : ∀ {k s e s'}, S.valid k → S.inv s → B.remove k s = (.error e, s') →
    S.inv s' ∧ S.calm s' ∧ ∀ j, j ≠ k → S.view s' j = S.view s j
  insert_ok : ∀ {k x r s s'}, S.valid k → S.offered k x → S.inv s → S.view s k = none →
    B.insert k x r s = (.ok (), s') →
      S.inv s' ∧ ∀ j, S.view s' j = if j = k then some (S.stored x r) else S.view s j
  insert_error : ∀ {k x r s e s'}, S.valid k → S.offered k x → S.inv s → S.view s k = none →
    B.insert k x r s = (.error e, s') →
      S.inv s' ∧ S.calm s' ∧ ∀ j, j ≠ k → S.view s' j = S.view s j
  remove_calm : ∀ {k s}, S.valid k → S.calm s → ∃ s', B.remove k s = (.ok (), s') ∧ S.calm s'
  restore_calm : ∀ {k t s}, S.valid k → S.sound k t → S.inv s → S.calm s → S.view s k = none →
    ∃ s', B.restore k t s = (.ok (), s') ∧ S.inv s' ∧ S.calm s' ∧
      ∀ j, S.view s' j = if j = k then some t else S.view s j

/-- The laws of forgetting a key without a transaction around it. -/
structure ForgettingBackend (B : TransactionalBackend N σ π τ) (S : MapSpec N σ π τ) : Prop
    extends MapBackend B S where
  forget_ok : ∀ {k s s'}, S.valid k → S.inv s → B.forget k s = (.ok (), s') →
    S.inv s' ∧ ∀ j, S.view s' j = if j = k then none else S.view s j
  forget_error : ∀ {k s e s'}, S.valid k → S.inv s → B.forget k s = (.error e, s') →
    S.inv s' ∧ S.calm s' ∧ ∀ j, j ≠ k → S.view s' j = S.view s j

/-- The map after an admission: the evicted keys are gone, the admitted one is set. -/
def installed (v : CacheKey N → Option τ) (plan : AdmissionPlan N) (t : τ) :
    CacheKey N → Option τ := fun k =>
  if k = plan.key then some t
  else if k ∈ evictedKeys plan.evictions then none
  else v k

/-- The map after the removal of some keys. -/
def without (v : CacheKey N → Option τ) (removed : List (CacheKey N)) :
    CacheKey N → Option τ := fun k => if k ∈ removed then none else v k

@[simp] theorem without_nil (v : CacheKey N → Option τ) : without v [] = v := by
  funext k
  simp [without]

theorem mem_affectedKeys {plan : AdmissionPlan N} {k : CacheKey N} :
    k ∈ affectedKeys plan ↔ k = plan.key ∨ k ∈ evictedKeys plan.evictions := by
  unfold affectedKeys
  by_cases h : plan.key ∈ plan.evictions.map Eviction.key
  · rw [if_pos h]
    simp only [evictedKeys, List.mem_toFinset]
    exact ⟨Or.inr, fun hk => hk.elim (fun he => he ▸ h) id⟩
  · rw [if_neg h]
    simp only [evictedKeys, List.mem_toFinset, List.mem_append, List.mem_singleton]
    exact or_comm

namespace MapBackend

variable {B : TransactionalBackend N σ π τ} {S : MapSpec N σ π τ}

/-- Capturing reads the map and changes nothing. -/
theorem captureAll (h : MapBackend B S) {affected : List (CacheKey N)}
    (hvalid : ∀ k ∈ affected, S.valid k) (s : σ) :
    ∃ captured, B.captureAll affected s = (.ok captured, s) ∧
      (∀ kv ∈ captured.items, kv.1 ∈ affected ∧ kv.2 = S.view s kv.1) ∧
      ∀ k ∈ affected, k ∈ captured.keys := by
  suffices hgen : ∀ (keys : List (CacheKey N)) (acc : Dict (CacheKey N) (Option τ)),
      (∀ k ∈ keys, S.valid k) → (∀ kv ∈ acc.items, kv.2 = S.view s kv.1) →
      ∃ captured, Exec.foldEach (fun captured key => do
          let snapshot ← B.capture key
          pure (captured.insert key snapshot)) acc keys s = (.ok captured, s) ∧
        (∀ kv ∈ captured.items, kv.2 = S.view s kv.1) ∧
        ∀ k, k ∈ captured.keys ↔ k ∈ acc.keys ∨ k ∈ keys by
    obtain ⟨captured, hrun, hitems, hkeys⟩ := hgen affected .empty hvalid (by simp)
    refine ⟨captured, hrun, fun kv hkv => ⟨?_, hitems kv hkv⟩, fun k hk => (hkeys k).mpr (Or.inr hk)⟩
    simpa using (hkeys kv.1).mp (List.mem_map_of_mem hkv)
  intro keys
  induction keys with
  | nil => exact fun acc _ hacc => ⟨acc, rfl, hacc, by simp⟩
  | cons key keys ih =>
    intro acc hvalid hacc
    have hstep : (do
        let snapshot ← B.capture key
        pure (acc.insert key snapshot) : Exec PyError σ _) s =
          (.ok (acc.insert key (S.view s key)), s) := by
      rw [Exec.bind_of_ok (h.capture s (hvalid key List.mem_cons_self)), Exec.pure_apply]
    obtain ⟨captured, hrun, hitems, hkeys⟩ := ih (acc.insert key (S.view s key))
      (fun k hk => hvalid k (List.mem_cons_of_mem _ hk)) (by
        intro kv hkv
        rcases Dict.mem_items_insert.mp hkv with rfl | ⟨hold, _⟩
        · rfl
        · exact hacc kv hold)
    refine ⟨captured, ?_, hitems, fun k => ?_⟩
    · rw [Exec.foldEach, Exec.bind_of_ok hstep, hrun]
    · rw [hkeys, Dict.mem_keys_insert, List.mem_cons]
      tauto

/-- The first loop of a rollback empties the affected keys. -/
theorem emptyAffected (h : MapBackend B S) {affected : List (CacheKey N)}
    {v : CacheKey N → Option τ} (hvalid : ∀ k ∈ affected, S.valid k) :
    Exec.Triple (fun s => S.inv s ∧ S.calm s ∧ ∀ j, j ∉ affected → S.view s j = v j)
      (Exec.forEach affected (fun key => Exec.tryExcept (B.remove key) (fun _ => pure ())))
      (fun _ s => S.inv s ∧ S.calm s ∧ ∀ j, S.view s j = if j ∈ affected then none else v j)
      (fun _ _ => False) := by
  refine (Exec.Triple.forEach _ (I := fun pre s => S.inv s ∧ S.calm s ∧
    (∀ j ∈ pre, S.view s j = none) ∧ ∀ j, j ∉ affected → S.view s j = v j) ?_).weaken
    ?_ ?_ (fun _ _ hf => hf)
  · rintro pre key post hsplit s ⟨hinv, hcalm, hgone, hrest⟩
    have hkey : key ∈ affected := by simp [hsplit]
    obtain ⟨s', hrun, hcalm'⟩ := h.remove_calm (hvalid key hkey) hcalm
    obtain ⟨hinv', hview⟩ := h.remove_ok (hvalid key hkey) hinv hrun
    rw [Exec.tryExcept_of_ok hrun]
    refine ⟨hinv', hcalm', fun j hj => ?_, fun j hj => ?_⟩
    · rw [hview]
      split_ifs with hjk
      · rfl
      · exact hgone j (by simpa [hjk] using hj)
    · rw [hview, if_neg (fun hjk : j = key => hj (hjk ▸ hkey))]
      exact hrest j hj
  · rintro s ⟨hinv, hcalm, hrest⟩
    exact ⟨hinv, hcalm, by simp, hrest⟩
  · rintro _ s ⟨hinv, hcalm, hgone, hrest⟩
    refine ⟨hinv, hcalm, fun j => ?_⟩
    split_ifs with hj
    · exact hgone j hj
    · exact hrest j hj

/-- Writing a captured pair back on a vacant key sets that key and no other. -/
theorem writeBack_vacant (h : MapBackend B S) {k : CacheKey N} {t : Option τ} (hvalid : S.valid k)
    (hsound : ∀ t', t = some t' → S.sound k t') {s : σ} (hinv : S.inv s) (hcalm : S.calm s)
    (hvacant : S.view s k = none) :
    ∃ s', B.writeBack (k, t) s = (.ok (), s') ∧ S.inv s' ∧ S.calm s' ∧
      ∀ j, S.view s' j = if j = k then t else S.view s j := by
  cases t with
  | none =>
    refine ⟨s, rfl, hinv, hcalm, fun j => ?_⟩
    by_cases hjk : j = k
    · rw [if_pos hjk, hjk, hvacant]
    · rw [if_neg hjk]
  | some t => exact h.restore_calm hvalid (hsound t rfl) hinv hcalm hvacant

/-- The second loop of a rollback writes every captured pair back. -/
theorem writeBackAll (h : MapBackend B S) {affected : List (CacheKey N)}
    {captured : Dict (CacheKey N) (Option τ)} {v : CacheKey N → Option τ}
    (hvalid : ∀ k ∈ affected, S.valid k)
    (hcaptured : ∀ kv ∈ captured.items, kv.1 ∈ affected ∧ kv.2 = v kv.1)
    (hcover : ∀ k ∈ affected, k ∈ captured.keys)
    (hsound : ∀ k ∈ affected, ∀ t, v k = some t → S.sound k t) :
    Exec.Triple
      (fun s => S.inv s ∧ S.calm s ∧ ∀ j, S.view s j = if j ∈ affected then none else v j)
      (Exec.forEach captured.items B.writeBack)
      (fun _ s => S.calm s ∧ S.Shows v s) (fun _ _ => False) := by
  -- the keys before the next pair show their state again, the affected ones after it do not
  refine (Exec.Triple.forEach _ (I := fun pre s => S.inv s ∧ S.calm s ∧
    ∀ j, S.view s j = if j ∈ affected ∧ j ∉ pre.map Prod.fst then none else v j) ?_).weaken
    ?_ ?_ (fun _ _ hf => hf)
  · rintro pre ⟨k, t⟩ post hsplit s ⟨hinv, hcalm, hview⟩
    obtain ⟨hk, rfl⟩ : k ∈ affected ∧ t = v k := hcaptured (k, t) (by simp [hsplit])
    have hfirst : k ∉ pre.map Prod.fst := by
      have hnodup := captured.nodup
      rw [hsplit, List.map_append, List.map_cons] at hnodup
      exact fun hmem => (List.nodup_append.mp hnodup).2.2 k hmem k List.mem_cons_self rfl
    have hvacant : S.view s k = none := by rw [hview, if_pos ⟨hk, hfirst⟩]
    obtain ⟨s', hrun, hinv', hcalm', hview'⟩ :=
      h.writeBack_vacant (hvalid k hk) (hsound k hk) hinv hcalm hvacant
    rw [hrun]
    refine ⟨hinv', hcalm', fun j => ?_⟩
    rw [hview', hview]
    by_cases hjk : j = k
    · simp [hjk]
    · simp only [List.map_append, List.map_cons, List.map_nil, List.mem_append,
        List.mem_singleton, hjk, or_false, if_false]
  · rintro s ⟨hinv, hcalm, hview⟩
    exact ⟨hinv, hcalm, by simpa using hview⟩
  · rintro _ s ⟨hinv, hcalm, hview⟩
    refine ⟨hcalm, hinv, funext fun j => ?_⟩
    rw [hview, if_neg]
    rintro ⟨hj, hnot⟩
    exact hnot (hcover j hj)

/-- A rollback over calm calls rebuilds the map the snapshots were taken from. -/
theorem rollback (h : MapBackend B S) {affected : List (CacheKey N)}
    {captured : Dict (CacheKey N) (Option τ)} {v : CacheKey N → Option τ}
    (hvalid : ∀ k ∈ affected, S.valid k)
    (hcaptured : ∀ kv ∈ captured.items, kv.1 ∈ affected ∧ kv.2 = v kv.1)
    (hcover : ∀ k ∈ affected, k ∈ captured.keys)
    (hsound : ∀ k ∈ affected, ∀ t, v k = some t → S.sound k t) :
    Exec.Triple (fun s => S.inv s ∧ S.calm s ∧ ∀ j, j ∉ affected → S.view s j = v j)
      (B.rollback affected captured) (fun _ s => S.calm s ∧ S.Shows v s) (fun _ _ => False) :=
  Exec.Triple.bind (h.emptyAffected hvalid) fun _ =>
    h.writeBackAll hvalid hcaptured hcover hsound

/-- What a loop of removals has done when a call of it raises. -/
def Broken (S : MapSpec N σ π τ) (affected : List (CacheKey N)) (v : CacheKey N → Option τ)
    (s : σ) : Prop := S.inv s ∧ S.calm s ∧ ∀ j, j ∉ affected → S.view s j = v j

/-- A loop of removals, stopped by the first one that raises. -/
theorem removeAll (h : MapBackend B S) {keys : List (CacheKey N)}
    (hvalid : ∀ k ∈ keys, S.valid k) (v : CacheKey N → Option τ) :
    Exec.Triple (S.Shows v) (Exec.forEach keys B.remove) (fun _ => S.Shows (without v keys))
      (fun _ => Broken S keys v) := by
  refine (Exec.Triple.forEach _ (I := fun pre => S.Shows (without v pre)) ?_).weaken
    (fun s hs => by rwa [without_nil]) (fun _ _ hs => hs) (fun _ _ hs => hs)
  rintro pre key post hsplit s ⟨hinv, hs⟩
  have hkey : key ∈ keys := by simp [hsplit]
  rcases hrun : B.remove key s with ⟨⟨e⟩ | ⟨⟨⟩⟩, s'⟩
  · obtain ⟨hinv', hcalm, hview⟩ := h.remove_error (hvalid key hkey) hinv hrun
    refine ⟨hinv', hcalm, fun j hj => ?_⟩
    have hpre : j ∉ pre := fun hmem => hj (by simp [hsplit, hmem])
    rw [hview j (fun hjk => hj (hjk ▸ hkey)), hs, without, if_neg hpre]
  · obtain ⟨hinv', hview⟩ := h.remove_ok (hvalid key hkey) hinv hrun
    refine ⟨hinv', funext fun j => ?_⟩
    rw [hview, hs]
    by_cases hjk : j = key <;> simp [without, hjk]

/-- Removing the evicted entries is removing their keys. -/
theorem forEach_evictions {N σ π τ : Type} (B : TransactionalBackend N σ π τ)
    (evictions : List (Eviction N)) :
    Exec.forEach evictions (fun eviction => B.remove eviction.key) =
      Exec.forEach (evictions.map Eviction.key) B.remove := by
  unfold Exec.forEach
  induction evictions with
  | nil => rfl
  | cons e evictions ih => simp only [List.map_cons, Exec.foldEach, ih]

/-- The forward phase of an admission, stopped by the first call that raises. -/
theorem mutate (h : MapBackend B S) {plan : AdmissionPlan N} {payload : π}
    (hoffered : S.offered plan.key payload) (hvalid : ∀ k ∈ affectedKeys plan, S.valid k)
    (v : CacheKey N → Option τ) :
    Exec.Triple (S.Shows v) (B.mutate plan payload)
      (fun _ => S.Shows (installed v plan (S.stored payload plan.role)))
      (fun _ => Broken S (affectedKeys plan) v) := by
  have hself : S.valid plan.key := hvalid _ (mem_affectedKeys.mpr (Or.inl rfl))
  have hevicted {k : CacheKey N} (hk : k ∈ plan.evictions.map Eviction.key) :
      k ∈ affectedKeys plan := mem_affectedKeys.mpr (Or.inr (by simpa [evictedKeys] using hk))
  have hgone (j : CacheKey N) (hj : j ∉ affectedKeys plan) :
      j ≠ plan.key ∧ j ∉ plan.evictions.map Eviction.key :=
    ⟨fun he => hj (mem_affectedKeys.mpr (Or.inl he)), fun hmem => hj (hevicted hmem)⟩
  unfold TransactionalBackend.mutate
  rw [forEach_evictions]
  refine Exec.Triple.bind ((h.removeAll (fun k hk => hvalid k (hevicted hk)) v).weaken
    (fun _ hs => hs) (fun _ _ hs => hs) (fun _ s hs => ⟨hs.1, hs.2.1, fun j hj =>
      hs.2.2 j (hgone j hj).2⟩)) fun _ => ?_
  refine Exec.Triple.bind (S := fun _ s => S.inv s ∧ ∀ j, S.view s j =
      if j = plan.key then none else without v (plan.evictions.map Eviction.key) j) ?_ fun _ => ?_
  · rintro s ⟨hinv, hs⟩
    rcases hrun : B.remove plan.key s with ⟨⟨e⟩ | ⟨⟨⟩⟩, s'⟩
    · obtain ⟨hinv', hcalm, hview⟩ := h.remove_error hself hinv hrun
      refine ⟨hinv', hcalm, fun j hj => ?_⟩
      rw [hview j (hgone j hj).1, hs, without, if_neg (hgone j hj).2]
    · obtain ⟨hinv', hview⟩ := h.remove_ok hself hinv hrun
      exact ⟨hinv', fun j => by rw [hview, hs]⟩
  · rintro s ⟨hinv, hs⟩
    have hvacant : S.view s plan.key = none := by rw [hs, if_pos rfl]
    rcases hrun : B.insert plan.key payload plan.role s with ⟨⟨e⟩ | ⟨⟨⟩⟩, s'⟩
    · obtain ⟨hinv', hcalm, hview⟩ := h.insert_error hself hoffered hinv hvacant hrun
      refine ⟨hinv', hcalm, fun j hj => ?_⟩
      rw [hview j (hgone j hj).1, hs, if_neg (hgone j hj).1, without, if_neg (hgone j hj).2]
    · obtain ⟨hinv', hview⟩ := h.insert_ok hself hoffered hinv hvacant hrun
      refine ⟨hinv', funext fun j => ?_⟩
      rw [hview, hs, installed]
      by_cases hjk : j = plan.key <;> simp [hjk, without, evictedKeys]

/-- A failed attempt rebuilds the map it started from, a completed one keeps what its
mutation did. -/
theorem attempt (h : MapBackend B S) (affected : List (CacheKey N))
    {captured : Dict (CacheKey N) (Option τ)} {v w : CacheKey N → Option τ}
    {mutation : Exec PyError σ Unit} (policyBefore : PolicySnapshot N)
    (commit : WorkingSetPolicy N → WorkingSetPolicy N)
    (hvalid : ∀ k ∈ affected, S.valid k)
    (hcaptured : ∀ kv ∈ captured.items, kv.1 ∈ affected ∧ kv.2 = v kv.1)
    (hcover : ∀ k ∈ affected, k ∈ captured.keys)
    (hsound : ∀ k ∈ affected, ∀ t, v k = some t → S.sound k t)
    (hmutation : Exec.Triple (S.Shows v) mutation (fun _ => S.Shows w)
      (fun _ => Broken S affected v)) :
    Exec.Triple (fun c : CacheCoordinator N σ => S.Shows v c.backend)
      (Coordinator.attempt B policyBefore affected captured mutation commit)
      (fun _ c => S.Shows w c.backend) (fun _ c => S.Shows v c.backend) := by
  refine Exec.Triple.tryExcept (E := fun _ c => Broken S affected v c.backend) ?_ (fun e => ?_)
  · refine Exec.Triple.bind (S := fun _ c => S.Shows w c.backend)
      (Exec.Triple.zoom fun c hc => hmutation c.backend hc) fun _ => ?_
    exact (Exec.Triple.modify _).pre fun c hc => hc
  · refine Exec.Triple.bind (S := fun _ c => S.Shows v c.backend) ?_ fun _ => Exec.Triple.fail e
    refine Exec.Triple.bind (S := fun _ c => Broken S affected v c.backend)
      ((Exec.Triple.modify _).pre fun c hc => hc) fun _ => ?_
    exact Exec.Triple.zoom fun c hc =>
      ((h.rollback hvalid hcaptured hcover hsound).weaken (fun _ hs => hs)
        (fun _ _ hs => hs.2) (fun _ _ hf => hf.elim)) c.backend hc

/-- The same for a whole transaction, which captures the affected keys itself. -/
theorem transaction (h : MapBackend B S) {affected : List (CacheKey N)}
    {v w : CacheKey N → Option τ} {mutation : Exec PyError σ Unit}
    (commit : WorkingSetPolicy N → WorkingSetPolicy N) (hvalid : ∀ k ∈ affected, S.valid k)
    (hsound : ∀ k ∈ affected, ∀ t, v k = some t → S.sound k t)
    (hmutation : Exec.Triple (S.Shows v) mutation (fun _ => S.Shows w)
      (fun _ => Broken S affected v)) :
    Exec.Triple (fun c : CacheCoordinator N σ => S.Shows v c.backend)
      (Coordinator.transaction B affected mutation commit)
      (fun _ c => S.Shows w c.backend) (fun _ c => S.Shows v c.backend) := by
  intro c hc
  obtain ⟨captured, hrun, hitems, hcover⟩ := h.captureAll hvalid c.backend
  have honce : onBackend (B.captureAll affected) c = (.ok captured, c) := by
    simp [onBackend, Exec.zoom, hrun]
  unfold Coordinator.transaction
  rw [Exec.gets_bind_apply, Exec.bind_of_ok honce]
  refine h.attempt affected _ commit hvalid (fun kv hkv => ?_) hcover hsound hmutation c hc
  obtain ⟨hmem, hval⟩ := hitems kv hkv
  exact ⟨hmem, by rw [hval, hc.2]⟩

/-- An admission installs its plan in the map or, when it raises, changes nothing. -/
theorem admitPlan (h : MapBackend B S) {plan : AdmissionPlan N} {payload : π}
    {v : CacheKey N → Option τ} (hoffered : S.offered plan.key payload)
    (hvalid : ∀ k ∈ affectedKeys plan, S.valid k)
    (hsound : ∀ k ∈ affectedKeys plan, ∀ t, v k = some t → S.sound k t) :
    Exec.Triple (fun c : CacheCoordinator N σ => S.Shows v c.backend)
      (Coordinator.admitPlan B plan payload)
      (fun _ c => S.Shows
        (if plan.accepted then installed v plan (S.stored payload plan.role) else v) c.backend)
      (fun _ c => S.Shows v c.backend) := by
  unfold Coordinator.admitPlan
  split
  · exact Exec.Triple.bind (h.transaction _ hvalid hsound (h.mutate hoffered hvalid v))
      fun _ => Exec.Triple.skip true
  · exact (Exec.Triple.pure false).pre fun c hc => hc

/-- A trim removes its victims from the map or, when it raises, changes nothing. -/
theorem trim (h : MapBackend B S) {plan : TrimPlan N} {v : CacheKey N → Option τ}
    (hvalid : ∀ k ∈ plan.evictions.map Eviction.key, S.valid k)
    (hsound : ∀ k ∈ plan.evictions.map Eviction.key, ∀ t, v k = some t → S.sound k t) :
    Exec.Triple (fun c : CacheCoordinator N σ => S.Shows v c.backend) (Coordinator.trim B plan)
      (fun _ c => S.Shows (without v (plan.evictions.map Eviction.key)) c.backend)
      (fun _ c => S.Shows v c.backend) := by
  unfold Coordinator.trim
  split
  · rename_i hnil
    refine (Exec.Triple.pure false).pre fun c hc => ?_
    rwa [hnil, List.map_nil, without_nil]
  · exact Exec.Triple.bind (h.transaction _ hvalid hsound (h.removeAll hvalid v))
      fun _ => Exec.Triple.skip true

/-- What an admission does to both sides at once. -/
theorem admit_spec (h : MapBackend B S) (plan : AdmissionPlan N) (payload : π)
    {p : WorkingSetPolicy N} {v : CacheKey N → Option τ} (hoffered : S.offered plan.key payload)
    (hvalid : ∀ k ∈ affectedKeys plan, S.valid k)
    (hsound : ∀ k ∈ affectedKeys plan, ∀ t, v k = some t → S.sound k t) :
    Exec.Triple (fun c : CacheCoordinator N σ => c.policy = p ∧ S.Shows v c.backend)
      (Coordinator.admitPlan B plan payload)
      (fun accepted c => accepted = plan.accepted ∧ c.policy = p.commit plan ∧ S.Shows
        (if plan.accepted then installed v plan (S.stored payload plan.role) else v) c.backend)
      (fun _ c => c.policy = p ∧ S.Shows v c.backend) :=
  ((admit_policy B plan payload p).and (h.admitPlan hoffered hvalid hsound)).weaken
    (fun _ hc => hc) (fun _ _ hc => ⟨hc.1.1, hc.1.2, hc.2⟩) (fun _ _ hc => hc)

/-- What a trim does to both sides at once. -/
theorem trim_spec (h : MapBackend B S) (plan : TrimPlan N) {p : WorkingSetPolicy N}
    {v : CacheKey N → Option τ} (hvalid : ∀ k ∈ plan.evictions.map Eviction.key, S.valid k)
    (hsound : ∀ k ∈ plan.evictions.map Eviction.key, ∀ t, v k = some t → S.sound k t) :
    Exec.Triple (fun c : CacheCoordinator N σ => c.policy = p ∧ S.Shows v c.backend)
      (Coordinator.trim B plan)
      (fun _ c => c.policy = p.commitTrim plan ∧
        S.Shows (without v (plan.evictions.map Eviction.key)) c.backend)
      (fun _ c => c.policy = p ∧ S.Shows v c.backend) :=
  (trim_policy B plan p).and (h.trim hvalid hsound)

end MapBackend

/-- The plan of forgetting one key. -/
def forgetPlan (key : CacheKey N) : TrimPlan N := ⟨[⟨key, .remoteEvicted⟩]⟩

/-- Forgetting one key removes it from both sides or, when it raises, changes neither. A
key the backend does not hold is skipped. -/
theorem ForgettingBackend.forgetRemoteKey_spec {B : TransactionalBackend N σ π τ}
    {S : MapSpec N σ π τ} (h : ForgettingBackend B S) {key : CacheKey N}
    {p : WorkingSetPolicy N} {v : CacheKey N → Option τ} (hvalid : S.valid key)
    (hsound : ∀ t, v key = some t → S.sound key t) (removed : List (CacheKey N)) :
    Exec.Triple (fun c : CacheCoordinator N σ => c.policy = p ∧ S.Shows v c.backend)
      (Coordinator.forgetRemoteKey B removed key)
      (fun _ c => c.policy = (if (v key).isSome then p.commitTrim (forgetPlan key) else p) ∧
        S.Shows (without v [key]) c.backend)
      (fun _ c => c.policy = p ∧ S.Shows v c.backend) := by
  rintro c ⟨hp, hc⟩
  have honce : onBackend (B.capture key) c = (.ok (v key), c) := by
    simp [onBackend, Exec.zoom, h.capture c.backend hvalid, hc.2]
  unfold Coordinator.forgetRemoteKey
  rw [Exec.bind_of_ok honce]
  cases hkey : v key with
  | none =>
    refine ⟨hp, hc.1, ?_⟩
    rw [hc.2]
    funext j
    by_cases hj : j = key <;> simp [without, hj, hkey]
  | some snapshot =>
    dsimp only
    rw [Exec.gets_bind_apply, hp]
    have hforget : Exec.Triple (S.Shows v) (B.forget key) (fun _ => S.Shows (without v [key]))
        (fun _ => MapBackend.Broken S [key] v) := by
      rintro s ⟨hinv, hs⟩
      rcases hrun : B.forget key s with ⟨⟨e⟩ | ⟨⟨⟩⟩, s'⟩
      · obtain ⟨hinv', hcalm, hview⟩ := h.forget_error hvalid hinv hrun
        exact ⟨hinv', hcalm, fun j hj => by rw [hview j (by simpa using hj), hs]⟩
      · obtain ⟨hinv', hview⟩ := h.forget_ok hvalid hinv hrun
        refine ⟨hinv', funext fun j => ?_⟩
        rw [hview, hs]
        by_cases hj : j = key <;> simp [without, hj]
    have hitems : ∀ kv ∈ (Dict.empty.insert key (some snapshot)).items,
        kv.1 ∈ [key] ∧ kv.2 = v kv.1 := by
      intro kv hkv
      rcases Dict.mem_items_insert.mp hkv with rfl | ⟨hold, _⟩
      · exact ⟨by simp, hkey.symm⟩
      · simp at hold
    have hview := h.attempt [key] p.captureState
      (fun q => q.commitTrim (forgetPlan key)) (by simpa using hvalid) hitems
      (by simp [Dict.mem_keys_insert]) (by simpa using hsound) hforget
    have hpolicy := attempt_policy B p [key] (Dict.empty.insert key (some snapshot))
      (B.forget key) (fun q => q.commitTrim (forgetPlan key))
    exact (hpolicy.and hview).bind (fun _ => Exec.Triple.skip _) c ⟨hp, hc⟩

end StateBraid.Coordinator
