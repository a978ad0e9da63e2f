import StateBraid.Library.Selection
import StateBraid.Policy.Chronology
import StateBraid.Policy.Pins

/-!
# The victims of a plan

The residents in the order in which they become victims: by the rank of their role, then
by the age of the role's bucket, then by admission. Protected residents wait behind all
others. Both planning loops look for one victim after the other; what they evict is the
shortest prefix of that order after which the rest is small enough.
-/

namespace StateBraid.Policy
open Library
open scoped BigOperators

variable {N : Type} [DecidableEq N]

namespace WorkingSetPolicy

/-! ## Sizes of sets of residents -/

/-- The resident keys. -/
def residents (p : WorkingSetPolicy N) : Finset (CacheKey N) := p.entries.keys.toFinset

/-- The size a key is held with. -/
def heldBytes (p : WorkingSetPolicy N) (k : CacheKey N) : ℤ :=
  ((p.entries.get? k).map EntryState.nbytes).getD 0

/-- The bytes of a set of keys. -/
def bytesOf (p : WorkingSetPolicy N) (S : Finset (CacheKey N)) : ℤ := ∑ k ∈ S, p.heldBytes k

/-- The keys of a set are within a count and a byte target. -/
def Within (p : WorkingSetPolicy N) (S : Finset (CacheKey N)) (sequences : ℕ) (bytes : ℤ) : Prop :=
  S.card ≤ sequences ∧ p.bytesOf S ≤ bytes

instance (p : WorkingSetPolicy N) (S : Finset (CacheKey N)) (sequences : ℕ) (bytes : ℤ) :
    Decidable (p.Within S sequences bytes) := inferInstanceAs (Decidable (_ ∧ _))

/-- The keys of a set fit both limits together. -/
def Fits (p : WorkingSetPolicy N) (S : Finset (CacheKey N)) : Prop :=
  p.Within S p.config.maxSequences p.config.maxBytes

/-- The keys of a set and one more entry of this size fit both limits together. -/
def FitsWith (p : WorkingSetPolicy N) (S : Finset (CacheKey N)) (nbytes : ℤ) : Prop :=
  S.card + 1 ≤ p.config.maxSequences ∧ p.bytesOf S + nbytes ≤ p.config.maxBytes

variable {p : WorkingSetPolicy N} {k : CacheKey N} {S T : Finset (CacheKey N)}

theorem mem_residents : k ∈ p.residents ↔ k ∈ p.entries.keys := List.mem_toFinset

theorem heldBytes_of_get? {e : EntryState N} (h : p.entries.get? k = some e) :
    p.heldBytes k = e.nbytes := by
  rw [heldBytes, h]
  rfl

theorem card_residents (p : WorkingSetPolicy N) : p.residents.card = p.nSequences := by
  rw [residents, List.toFinset_card_of_nodup (Dict.keys_nodup _), Dict.length_keys]
  rfl

theorem bytesOf_residents (p : WorkingSetPolicy N) : p.bytesOf p.residents = p.residentBytes :=
  (Dict.sum_items p.entries EntryState.nbytes).symm

theorem WithinLimits.heldBytes_nonneg (h : p.WithinLimits) (k : CacheKey N) :
    0 ≤ p.heldBytes k := by
  unfold heldBytes
  cases hget : p.entries.get? k with
  | none => rfl
  | some e => exact h.nonneg e (Dict.mem_values_of_get? hget)

theorem WithinLimits.bytesOf_mono (h : p.WithinLimits) (hsub : S ⊆ T) :
    p.bytesOf S ≤ p.bytesOf T :=
  Finset.sum_le_sum_of_subset_of_nonneg hsub fun k _ _ => h.heldBytes_nonneg k

theorem FitsWith.mono (h : p.WithinLimits) {nbytes : ℤ} (hfits : p.FitsWith T nbytes)
    (hsub : S ⊆ T) : p.FitsWith S nbytes := by
  have hcard := Finset.card_le_card hsub
  have hbytes := h.bytesOf_mono hsub
  exact ⟨by have := hfits.1; omega, by have := hfits.2; omega⟩

theorem Within.mono (h : p.WithinLimits) {sequences : ℕ} {bytes : ℤ}
    (hwithin : p.Within T sequences bytes) (hsub : S ⊆ T) : p.Within S sequences bytes :=
  ⟨(Finset.card_le_card hsub).trans hwithin.1, (h.bytesOf_mono hsub).trans hwithin.2⟩

/-- The entries kept by a condition on their key, counted and summed over the keys. -/
theorem filtered_totals (p : WorkingSetPolicy N) (keep : CacheKey N → Prop) [DecidablePred keep] :
    ((p.entries.items.filter (fun kv => keep kv.1)).map Prod.snd).length =
        (p.residents.filter keep).card ∧
      (((p.entries.items.filter (fun kv => keep kv.1)).map Prod.snd).map EntryState.nbytes).sum =
        p.bytesOf (p.residents.filter keep) := by
  have hkeys : (p.entries.filterKeys keep).keys.toFinset = p.residents.filter keep := by
    ext k
    simp [residents]
  constructor
  · rw [← hkeys, List.toFinset_card_of_nodup (Dict.keys_nodup _), Dict.length_keys, List.length_map]
    rfl
  · have hsum := Dict.sum_items (p.entries.filterKeys keep) EntryState.nbytes
    rw [hkeys] at hsum
    rw [List.map_map, bytesOf]
    refine hsum.trans (Finset.sum_congr rfl fun k hk => ?_)
    rw [Dict.get?_filterKeys, if_pos (Finset.mem_filter.mp hk).2, heldBytes]

/-- The projection of an admission is within the limits when what is kept fits with it. -/
theorem projectedOverLimit_eq_false {key : CacheKey N} {nbytes : ℤ}
    {evicted : Finset (CacheKey N)} :
    p.projectedOverLimit key nbytes evicted = false ↔
      p.FitsWith ((p.residents \ evicted).erase key) nbytes := by
  have hset : p.residents.filter (fun k => k ∉ evicted ∧ k ≠ key) =
      (p.residents \ evicted).erase key := by
    ext k
    simp only [Finset.mem_filter, Finset.mem_erase, Finset.mem_sdiff]
    tauto
  obtain ⟨hcount, hbytes⟩ := p.filtered_totals (fun k => k ∉ evicted ∧ k ≠ key)
  rw [hset] at hcount hbytes
  simp only [projectedOverLimit, projectedState, keptEntries, decide_eq_false_iff_not, not_or,
    gt_iff_lt, not_lt, hcount, hbytes, FitsWith]

/-- A trim is not over its targets when what it keeps is within them. -/
theorem overTargets_eq_false {sequences bytes : ℕ} {evicted : Finset (CacheKey N)} :
    p.overTargets sequences bytes evicted = false ↔
      p.Within (p.residents \ evicted) sequences bytes := by
  have hset : p.residents.filter (fun k => k ∉ evicted) = p.residents \ evicted := by
    ext k
    simp only [Finset.mem_filter, Finset.mem_sdiff]
  obtain ⟨hcount, hbytes⟩ := p.filtered_totals (fun k => k ∉ evicted)
  rw [hset] at hcount hbytes
  simp only [overTargets, untrimmedEntries, decide_eq_false_iff_not, not_or, gt_iff_lt, not_lt,
    hcount, hbytes, Within]

/-! ## The order of the victims -/

/-- Both are resident, the first one goes first: its role has the lower rank, or an equal
one and the older bucket, or the roles agree and it was admitted earlier. -/
def Precedes (p : WorkingSetPolicy N) (j k : CacheKey N) : Prop :=
  ∃ r s, p.roleOf j = some r ∧ p.roleOf k = some s ∧
    (StableLt p.rank p.buckets.keys.idxOf r s ∨
      r = s ∧ p.entries.keys.idxOf j < p.entries.keys.idxOf k)

/-- All residents, in the order in which they become victims. -/
structure VictimOrder (p : WorkingSetPolicy N) (order : List (CacheKey N)) : Prop where
  complete : ∀ k, k ∈ order ↔ k ∈ p.entries.keys
  sorted : order.Pairwise p.Precedes

theorem Precedes.asymm {j k : CacheKey N} (h : p.Precedes j k) : ¬ p.Precedes k j := by
  rintro ⟨s, r, hs, hr, hback⟩
  obtain ⟨r', s', hr', hs', hfront⟩ := h
  obtain rfl := Option.some.inj (hr.symm.trans hr')
  obtain rfl := Option.some.inj (hs.symm.trans hs')
  rcases hfront with hlt | ⟨rfl, hlt⟩
  · rcases hback with hgt | ⟨rfl, -⟩
    · exact hlt.asymm hgt
    · exact hlt.asymm hlt
  · rcases hback with hgt | ⟨-, hgt⟩
    · exact hgt.asymm hgt
    · omega

theorem Precedes.rank_le {j k : CacheKey N} {r s : Role} (h : p.Precedes j k)
    (hr : p.roleOf j = some r) (hs : p.roleOf k = some s) : p.rank r ≤ p.rank s := by
  obtain ⟨r', s', hr', hs', hlt⟩ := h
  obtain rfl := Option.some.inj (hr.symm.trans hr')
  obtain rfl := Option.some.inj (hs.symm.trans hs')
  rcases hlt with (hlt | ⟨heq, -⟩) | ⟨rfl, -⟩
  · exact hlt.le
  · exact heq.le
  · exact le_rfl

/-- There is only one such order. -/
theorem VictimOrder.unique {order order' : List (CacheKey N)} (h : p.VictimOrder order)
    (h' : p.VictimOrder order') : order = order' := by
  have hirrefl : Std.Irrefl p.Precedes := ⟨fun k hk => hk.asymm hk⟩
  have hantisymm : Std.Antisymm p.Precedes := ⟨fun _ _ hjk hkj => absurd hkj hjk.asymm⟩
  exact h.sorted.eq_of_mem_iff h'.sorted fun {k} => (h.complete k).trans (h'.complete k).symm

theorem Chronological.mem_orderedKeys (h : p.Chronological) :
    k ∈ p.orderedKeys ↔ k ∈ p.entries.keys := by
  constructor
  · intro hk
    obtain ⟨role, hrole⟩ := WorkingSetPolicy.mem_orderedKeys hk
    exact h.toRepresents.mem_keys hrole
  · intro hk
    obtain ⟨role, hrole⟩ := exists_roleOf hk
    have hbucket := h.toRepresents.mem_keysForRole.mpr hrole
    exact List.mem_flatMap.mpr
      ⟨role, mem_sortByRank.mpr (mem_buckets_of_mem_keysForRole hbucket), hbucket⟩

/-- `_ordered_keys` lists the victims in their order. -/
theorem Chronological.victimOrder (h : p.Chronological) : p.VictimOrder p.orderedKeys where
  complete k := h.mem_orderedKeys
  sorted := by
    have hmem {role : Role} {k : CacheKey N} (hk : k ∈ p.keysForRole role) :
        p.roleOf k = some role := h.toRepresents.mem_keysForRole.mp hk
    refine List.pairwise_flatMap.mpr ⟨fun role _ => ?_, ?_⟩
    · have hpart : (p.keysForRole role).Sublist p.entries.keys := by
        rw [h.chronological role]
        exact List.filter_sublist
      refine ((pairwise_idxOf p.entries.keys_nodup).sublist hpart).imp_of_mem ?_
      intro j k hj hk hlt
      exact ⟨role, role, hmem hj, hmem hk, Or.inr ⟨rfl, hlt⟩⟩
    · refine (pairwise_insertionSort_stable (pairwise_idxOf p.buckets.keys_nodup)).imp ?_
      intro r s hlt j hj k hk
      exact ⟨r, s, hmem hj, hmem hk, Or.inl hlt⟩

theorem Chronological.orderedKeys_nodup (h : p.Chronological) : p.orderedKeys.Nodup :=
  List.Pairwise.imp (fun hjk he => by
    subst he
    exact hjk.asymm hjk) h.victimOrder.sorted

/-! ## The queue of the loops -/

/-- The residents outside a set, the guarded ones behind the others. -/
def victimQueue (p : WorkingSetPolicy N) (guarded excluded : Finset (CacheKey N)) :
    List (CacheKey N) := deferring guarded (p.orderedKeys.filter (fun k => k ∉ excluded))

theorem Chronological.mem_victimQueue (h : p.Chronological)
    {guarded excluded : Finset (CacheKey N)} :
    k ∈ p.victimQueue guarded excluded ↔ k ∈ p.entries.keys ∧ k ∉ excluded := by
  rw [victimQueue, mem_deferring, List.mem_filter, h.mem_orderedKeys, decide_eq_true_eq]

/-- The two searches of a loop find the front of the queue. -/
theorem head?_victimQueue (p : WorkingSetPolicy N) (guarded excluded : Finset (CacheKey N)) :
    (p.victimQueue guarded excluded).head? =
      (p.nextVictim (excluded ∪ guarded)).or (p.nextVictim excluded) := by
  have hboth : (fun k => decide (k ∉ excluded ∪ guarded)) =
      fun k : CacheKey N => decide (k ∉ guarded) && decide (k ∉ excluded) := by
    funext k
    rw [← Bool.decide_and]
    refine decide_eq_decide.mpr ?_
    rw [Finset.mem_union, not_or]
    exact and_comm
  rw [victimQueue, head?_deferring, List.head?_filter, ← List.head?_filter, List.filter_filter,
    List.head?_filter, nextVictim, nextVictim, hboth]

/-- Once its front is evicted the queue goes on with the rest. -/
theorem Chronological.victimQueue_insert (h : p.Chronological)
    {guarded excluded : Finset (CacheKey N)} {victim : CacheKey N} {rest : List (CacheKey N)}
    (hqueue : p.victimQueue guarded excluded = victim :: rest) :
    p.victimQueue guarded (insert victim excluded) = rest := by
  have hnodup : (victim :: rest).Nodup := by
    rw [← hqueue, victimQueue, (deferring_perm _ _).nodup_iff]
    exact h.orderedKeys_nodup.filter _
  have hfilter : p.victimQueue guarded (insert victim excluded) =
      (p.victimQueue guarded excluded).filter (fun k => k ≠ victim) := by
    rw [victimQueue, victimQueue, deferring_filter, List.filter_filter]
    congr 2
    funext k
    rw [← Bool.decide_and]
    refine decide_eq_decide.mpr ?_
    rw [Finset.mem_insert, not_or]
  rw [hfilter, hqueue, List.filter_cons_of_neg (by simp)]
  refine List.filter_eq_self.mpr fun k hk => decide_eq_true ?_
  rintro rfl
  exact (List.nodup_cons.mp hnodup).1 hk

/-! ## What the loops evict -/

theorem evictedKeys_append (evictions : List (Eviction N)) (keys : List (CacheKey N))
    (reason : EvictionReason) :
    evictedKeys (evictions ++ keys.map (fun k => ⟨k, reason⟩)) =
      evictedKeys evictions ∪ keys.toFinset := by
  simp [evictedKeys, Function.comp_def]

theorem evictedKeys_snoc (evictions : List (Eviction N)) (k : CacheKey N)
    (reason : EvictionReason) :
    evictedKeys (evictions ++ [⟨k, reason⟩]) = insert k (evictedKeys evictions) := by
  rw [Finset.insert_eq, Finset.union_comm]
  exact evictedKeys_append evictions [k] reason

/-- One turn of a loop that is not done yet. The two searches find the front of the queue,
which is the first of what is taken, and leave the rest of both. -/
theorem Chronological.turn (h : p.Chronological) {guarded excluded : Finset (CacheKey N)}
    {P : List (CacheKey N) → Prop} {taken : List (CacheKey N)} (hneeds : ¬ P [])
    (htaken : ShortestPrefix P (p.victimQueue guarded excluded) taken) :
    ∃ victim later, taken = victim :: later ∧ victim ∉ excluded ∧
      (p.nextVictim (excluded ∪ guarded)).or (p.nextVictim excluded) = some victim ∧
      (p.victimQueue guarded (insert victim excluded)).length <
        (p.victimQueue guarded excluded).length ∧
      ShortestPrefix (fun u => P (victim :: u)) (p.victimQueue guarded (insert victim excluded))
        later := by
  cases hqueue : p.victimQueue guarded excluded with
  | nil => exact (htaken.ne_nil hneeds hqueue).elim
  | cons victim rest =>
    rw [hqueue] at htaken
    obtain ⟨later, rfl, hlater⟩ := htaken.cons_inv hneeds
    have hfresh := (h.mem_victimQueue.mp (hqueue ▸ List.mem_cons_self)).2
    have hfront := p.head?_victimQueue guarded excluded
    rw [hqueue, List.head?_cons] at hfront
    have hnext := h.victimQueue_insert hqueue
    refine ⟨victim, later, rfl, hfresh, hfront.symm, ?_, ?_⟩
    · rw [hnext]
      exact Nat.lt_succ_self _
    · rw [hnext]
      exact hlater

/-- The capacity loop evicts the shortest sufficient prefix of its queue. -/
theorem Chronological.capacityLoop_takes (h : p.Chronological) {key : CacheKey N} {nbytes : ℤ}
    {guarded : Finset (CacheKey N)} {fuel : ℕ} {evictions : List (Eviction N)}
    {taken : List (CacheKey N)}
    (hfuel : (p.victimQueue guarded (insert key (evictedKeys evictions))).length ≤ fuel)
    (htaken : ShortestPrefix
      (fun u => p.projectedOverLimit key nbytes (evictedKeys evictions ∪ u.toFinset) = false)
      (p.victimQueue guarded (insert key (evictedKeys evictions))) taken) :
    p.capacityLoop key nbytes guarded fuel evictions =
      (evictions ++ taken.map (fun k => ⟨k, .capacity⟩), true) := by
  induction fuel generalizing evictions taken with
  | zero =>
    obtain rfl : taken = [] := by
      have := htaken.isPrefix.length_le
      exact List.length_eq_zero_iff.mp (by omega)
    have hfits := htaken.enough
    rw [List.toFinset_nil, Finset.union_empty] at hfits
    simp [capacityLoop, hfits]
  | succ fuel ih =>
    cases hover : p.projectedOverLimit key nbytes (evictedKeys evictions) with
    | false =>
      obtain rfl := htaken.eq_nil (by simpa using hover)
      simp [capacityLoop, hover]
    | true =>
      obtain ⟨victim, taken, rfl, hfresh, hfront, hshorter, hlater⟩ :=
        h.turn (by simpa using hover) htaken
      rw [Finset.mem_insert, not_or] at hfresh
      have hadd : addEvict key evictions (some victim) .capacity =
          evictions ++ [⟨victim, .capacity⟩] := if_pos hfresh
      have hevicted := evictedKeys_snoc evictions victim .capacity
      have hgo : p.capacityLoop key nbytes guarded fuel (evictions ++ [⟨victim, .capacity⟩]) =
          (evictions ++ [⟨victim, .capacity⟩] ++ taken.map (fun k => ⟨k, .capacity⟩), true) := by
        rw [Finset.insert_comm, ← hevicted] at hshorter hlater
        refine ih (by omega) ?_
        simpa [hevicted, Finset.union_insert, Finset.insert_union] using hlater
      rw [Finset.insert_union] at hfront
      rw [capacityLoop]
      simp only [hover, if_true]
      cases hfirst : p.nextVictim (insert key (evictedKeys evictions ∪ guarded)) with
      | some found =>
        rw [hfirst, Option.some_or] at hfront
        obtain rfl := Option.some.inj hfront
        simp only [hadd, hgo, List.append_assoc, List.map_cons, List.singleton_append]
      | none =>
        rw [hfirst, Option.none_or] at hfront
        simp only [hfront, hadd, hgo, List.append_assoc, List.map_cons, List.singleton_append]

/-- The trim loop does the same with its own measure. -/
theorem Chronological.trimLoop_takes (h : p.Chronological) {sequences bytes : ℕ}
    {guarded : Finset (CacheKey N)} {fuel : ℕ} {evictions : List (Eviction N)}
    {taken : List (CacheKey N)}
    (hfuel : (p.victimQueue guarded (evictedKeys evictions)).length ≤ fuel)
    (htaken : ShortestPrefix
      (fun u => p.overTargets sequences bytes (evictedKeys evictions ∪ u.toFinset) = false)
      (p.victimQueue guarded (evictedKeys evictions)) taken) :
    p.trimLoop sequences bytes guarded fuel evictions =
      evictions ++ taken.map (fun k => ⟨k, .trim⟩) := by
  induction fuel generalizing evictions taken with
  | zero =>
    obtain rfl : taken = [] := by
      have := htaken.isPrefix.length_le
      exact List.length_eq_zero_iff.mp (by omega)
    simp [trimLoop]
  | succ fuel ih =>
    cases hover : p.overTargets sequences bytes (evictedKeys evictions) with
    | false =>
      obtain rfl := htaken.eq_nil (by simpa using hover)
      simp [trimLoop, hover]
    | true =>
      obtain ⟨victim, taken, rfl, -, hfront, hshorter, hlater⟩ :=
        h.turn (by simpa using hover) htaken
      have hevicted := evictedKeys_snoc evictions victim .trim
      have hgo : p.trimLoop sequences bytes guarded fuel (evictions ++ [⟨victim, .trim⟩]) =
          evictions ++ [⟨victim, .trim⟩] ++ taken.map (fun k => ⟨k, .trim⟩) := by
        rw [← hevicted] at hshorter hlater
        refine ih (by omega) ?_
        simpa [hevicted, Finset.union_insert, Finset.insert_union] using hlater
      rw [trimLoop]
      simp only [hover, if_true]
      cases hfirst : p.nextVictim (evictedKeys evictions ∪ guarded) with
      | some found =>
        rw [hfirst, Option.some_or] at hfront
        obtain rfl := Option.some.inj hfront
        simp only [hgo, List.append_assoc, List.map_cons, List.singleton_append]
      | none =>
        rw [hfirst, Option.none_or] at hfront
        simp only [hfront, hgo, List.append_assoc, List.map_cons, List.singleton_append]

end WorkingSetPolicy

end StateBraid.Policy
