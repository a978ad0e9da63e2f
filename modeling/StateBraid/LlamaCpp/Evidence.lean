import StateBraid.LlamaCpp.Reuse

/-!
# The served prefix, derived three times

The timings of a completion give the served prefix as a length, an observation gives it
as a split of the prompt with a payload, and the policy's reader as the prompt without
its remainder. They are three accounts of one split.
-/
namespace StateBraid.LlamaCpp
open Policy Managed

variable {N π : Type}

/-! ## The timings -/

/-- What `from_response` accepts: two counts that are integers and add up to the prompt. -/
theorem fromResponse_ok_iff {response : Json} {promptLength : ℕ} {stats : ReuseStats} :
    ReuseStats.fromResponse response promptLength = .ok stats ↔
      (response.get "timings").isObject = true ∧
        ((response.get "timings").get "cache_n").asInt? = some stats.cacheN ∧
        ((response.get "timings").get "prompt_n").asInt? = some stats.promptN ∧
        0 ≤ stats.cacheN ∧ 0 ≤ stats.promptN ∧ stats.cacheN + stats.promptN = promptLength := by
  unfold ReuseStats.fromResponse
  dsimp only
  by_cases hobject : (response.get "timings").isObject = true
  · rw [if_neg (not_not.mpr hobject)]
    cases hcache : ((response.get "timings").get "cache_n").asInt? with
    | none => simp
    | some cacheN =>
      cases hprompt : ((response.get "timings").get "prompt_n").asInt? with
      | none => simp
      | some promptN =>
        dsimp only
        split_ifs with houtside hnegative hsum
        · simp only [Option.some.injEq, false_iff]
          rintro ⟨-, rfl, rfl, hcacheN, hpromptN, hadd⟩
          omega
        · simp only [Option.some.injEq, false_iff]
          rintro ⟨-, rfl, rfl, hcacheN, hpromptN, hadd⟩
          omega
        · simp only [Option.some.injEq, false_iff]
          rintro ⟨-, rfl, rfl, hcacheN, hpromptN, hadd⟩
          exact hsum hadd
        · constructor
          · rintro ⟨⟩
            exact ⟨hobject, rfl, rfl, not_lt.mp (not_or.mp houtside).1, not_lt.mp hnegative,
              not_not.mp hsum⟩
          · rintro ⟨-, hcacheN, hpromptN, -⟩
            rw [Option.some.inj hcacheN, Option.some.inj hpromptN]
  · rw [if_pos hobject]
    simp [hobject]

/-! ## The observation -/

/-- Without what the prompt ends with, its front is left. -/
theorem take_sub_of_suffix {prompt remaining : List ℤ} (h : remaining <:+ prompt) :
    prompt.take (prompt.length - remaining.length) ++ remaining = prompt := by
  obtain ⟨front, rfl⟩ := h
  simp

/-- The reader's key: none for a remainder that is the whole prompt, else the front. -/
theorem matchedPrefixKey_eq (cacheNamespace : N) (prompt remaining : List ℤ) :
    matchedPrefixKey cacheNamespace prompt remaining =
      if prompt.length - remaining.length ≠ 0 then
        some ⟨cacheNamespace, prompt.take (prompt.length - remaining.length)⟩
      else none := by
  have hlength : max (0 : ℤ) (prompt.length - remaining.length) =
      ((prompt.length - remaining.length : ℕ) : ℤ) := by omega
  rw [matchedPrefixKey, hlength, Int.toNat_natCast]
  split_ifs with hint hnat hnat
  · omega
  · rfl
  · rfl
  · omega

/-- `from_backend_result` accepts the suffixes of the prompt with a payload exactly when
something is matched, and reads them as `matched_prefix_key` does. -/
theorem fromBackendResult_ok_iff {cacheNamespace : N} {prompt remaining : List ℤ}
    {payload : Option π} {o : LookupObservation N π} :
    LookupObservation.fromBackendResult cacheNamespace prompt payload remaining = .ok o ↔
      remaining <:+ prompt ∧ (payload.isSome = true ↔ remaining.length < prompt.length) ∧
        o = ⟨cacheNamespace, prompt, remaining, payload,
          matchedPrefixKey cacheNamespace prompt remaining⟩ := by
  unfold LookupObservation.fromBackendResult
  dsimp only
  by_cases hsuffix : remaining <:+ prompt
  · have hle := hsuffix.length_le
    have hdrop : remaining = prompt.drop (prompt.length - remaining.length) :=
      List.suffix_iff_eq_drop.mp hsuffix
    rw [if_neg (not_lt.mpr hle), if_neg (not_not.mpr hdrop), matchedPrefixKey_eq]
    cases payload with
    | none =>
      by_cases hmatched : prompt.length - remaining.length = 0
      · have hnot : ¬ remaining.length < prompt.length := by omega
        simp [hsuffix, hmatched, hnot, eq_comm]
      · have hlt : remaining.length < prompt.length := by omega
        simp [hmatched, hlt]
    | some handle =>
      by_cases hmatched : prompt.length - remaining.length = 0
      · have hnot : ¬ remaining.length < prompt.length := by omega
        simp [hmatched, hnot]
      · have hlt : remaining.length < prompt.length := by omega
        simp [hsuffix, hmatched, hlt, eq_comm]
  · refine iff_of_false ?_ fun h => hsuffix h.1
    by_cases hlong : remaining.length > prompt.length
    · rw [if_pos hlong]
      exact nofun
    · have hdrop : remaining ≠ prompt.drop (prompt.length - remaining.length) :=
        fun h => hsuffix (List.suffix_iff_eq_drop.mpr h)
      rw [if_neg hlong, if_pos hdrop]
      exact nofun

/-! ## One split of the prompt -/

/-- An observation says of a prompt what the timings say. -/
structure Evidences (prompt : List ℤ) (stats : ReuseStats) (o : LookupObservation N π) : Prop where
  matched : (o.matchedTokens : ℤ) = stats.cacheN
  remaining : (o.remaining.length : ℤ) = stats.promptN
  payload : o.payload.isSome = true ↔ 0 < stats.cacheN
  served : (o.matchedKey.map CacheKey.tokens).getD [] ++ o.remaining = prompt

/-- The normalization raises where the timings are refused, and nowhere else. -/
inductive Normalized (prompt : List ℤ) :
    Except PyError ReuseStats → Except PyError (LookupObservation N π) → Prop
  | refused (e : PyError) : Normalized prompt (.error e) (.error e)
  | observed (stats : ReuseStats) (o : LookupObservation N π) (h : Evidences prompt stats o) :
      Normalized prompt (.ok stats) (.ok o)

theorem matchedTokens_eq (o : LookupObservation N π) :
    o.matchedTokens = ((o.matchedKey.map CacheKey.tokens).getD []).length := by
  unfold LookupObservation.matchedTokens
  cases o.matchedKey <;> rfl

/-- The tokens of the reader's key are the prompt without the remainder. -/
theorem matchedPrefixKey_tokens (cacheNamespace : N) (prompt remaining : List ℤ) :
    ((matchedPrefixKey cacheNamespace prompt remaining).map CacheKey.tokens).getD [] =
      prompt.take (prompt.length - remaining.length) := by
  rw [matchedPrefixKey_eq]
  split_ifs with hmatched
  · rfl
  · rw [not_not.mp hmatched, List.take_zero]
    rfl

theorem normalizeReuse_normalized (backendIdentity : String) (idSlot : ℕ) (prompt : List ℤ)
    (response : Json) :
    Normalized prompt (ReuseStats.fromResponse response prompt.length)
      (normalizeReuse backendIdentity idSlot prompt response) := by
  unfold normalizeReuse
  cases hstats : ReuseStats.fromResponse response prompt.length with
  | error e => exact .refused e
  | ok stats =>
    obtain ⟨-, -, -, hcacheN, hpromptN, hadd⟩ := fromResponse_ok_iff.mp hstats
    obtain ⟨cacheN, promptN⟩ := stats
    obtain ⟨matched, rfl⟩ := Int.eq_ofNat_of_zero_le hcacheN
    dsimp only at hcacheN hpromptN hadd ⊢
    have hle : matched ≤ prompt.length := by omega
    have hremaining : (prompt.drop matched).length = prompt.length - matched := List.length_drop
    have hback : prompt.length - (prompt.length - matched) = matched := by omega
    rw [Int.toNat_natCast]
    generalize hpayload : (if (matched : ℤ) ≠ 0 then
      some (⟨backendIdentity, idSlot, matched⟩ : ReuseHandle) else none) = payload
    have hsome : payload.isSome = true ↔ 0 < matched := by
      rw [← hpayload]
      split_ifs with hzero
      · simp only [Option.isSome_some, true_iff]
        omega
      · simp only [Option.isSome_none, Bool.false_eq_true, false_iff]
        omega
    have hobserved : LookupObservation.fromBackendResult (cacheNamespace backendIdentity) prompt
        payload (prompt.drop matched) = .ok ⟨cacheNamespace backendIdentity, prompt,
          prompt.drop matched, payload,
          matchedPrefixKey (cacheNamespace backendIdentity) prompt (prompt.drop matched)⟩ := by
      refine fromBackendResult_ok_iff.mpr ⟨List.drop_suffix _ _, ?_, rfl⟩
      rw [hremaining, hsome]
      omega
    rw [hobserved]
    refine .observed _ _ ⟨?_, ?_, ?_, ?_⟩
    · rw [matchedTokens_eq, matchedPrefixKey_tokens, hremaining, hback, List.length_take_of_le hle]
    · dsimp only
      omega
    · dsimp only
      rw [hsome]
      exact Nat.cast_pos.symm
    · rw [matchedPrefixKey_tokens]
      exact take_sub_of_suffix (List.drop_suffix _ _)

/-- The two readers of a backend result: what one accepts the other reads alike, and what is
not a split of the prompt, or has a payload without a match or a match without a payload, is
rejected. -/
structure ReadersAgree (cacheNamespace : N) (prompt remaining : List ℤ) (payload : Option π) :
    Prop where
  agree : ∀ o, LookupObservation.fromBackendResult cacheNamespace prompt payload remaining = .ok o →
    matchedPrefixKey cacheNamespace prompt remaining = o.matchedKey
  split : ¬ remaining <:+ prompt →
    ∃ e, LookupObservation.fromBackendResult cacheNamespace prompt payload remaining = .error e
  backed : ¬ (payload.isSome = true ↔ remaining ≠ prompt) →
    ∃ e, LookupObservation.fromBackendResult cacheNamespace prompt payload remaining = .error e

/-- A suffix is shorter unless it is the whole. -/
theorem length_lt_iff_of_suffix {prompt remaining : List ℤ} (h : remaining <:+ prompt) :
    remaining.length < prompt.length ↔ remaining ≠ prompt := by
  constructor
  · rintro hlt rfl
    exact lt_irrefl _ hlt
  · intro hne
    exact lt_of_le_of_ne h.length_le fun heq => hne (h.eq_of_length heq)

theorem readersAgree (cacheNamespace : N) (prompt remaining : List ℤ) (payload : Option π) :
    ReadersAgree cacheNamespace prompt remaining payload := by
  cases hresult : LookupObservation.fromBackendResult cacheNamespace prompt payload remaining with
  | error e =>
    refine ⟨fun o h => ?_, fun _ => ⟨e, hresult⟩, fun _ => ⟨e, hresult⟩⟩
    rw [hresult] at h
    cases h
  | ok o =>
    obtain ⟨hsuffix, hpayload, rfl⟩ := fromBackendResult_ok_iff.mp hresult
    refine ⟨fun o' h => ?_, fun hnot => absurd hsuffix hnot, fun hnot => absurd ?_ hnot⟩
    · obtain ⟨-, -, rfl⟩ := fromBackendResult_ok_iff.mp h
      rfl
    · rw [hpayload, length_lt_iff_of_suffix hsuffix]

/-- The served prefix is the same in all three accounts, and the first is what the timings of
the response say. -/
theorem lookup_evidence_exact :
    (∀ response promptLength stats,
      ReuseStats.fromResponse response promptLength = .ok stats ↔
        (response.get "timings").isObject = true ∧
          ((response.get "timings").get "cache_n").asInt? = some stats.cacheN ∧
          ((response.get "timings").get "prompt_n").asInt? = some stats.promptN ∧
          0 ≤ stats.cacheN ∧ 0 ≤ stats.promptN ∧ stats.cacheN + stats.promptN = promptLength) ∧
    (∀ backendIdentity idSlot prompt response,
      Normalized prompt (ReuseStats.fromResponse response prompt.length)
        (normalizeReuse backendIdentity idSlot prompt response)) ∧
    ∀ (N π : Type) (cacheNamespace : N) (prompt remaining : List ℤ) (payload : Option π),
      ReadersAgree cacheNamespace prompt remaining payload :=
  ⟨fun _ _ _ => fromResponse_ok_iff, normalizeReuse_normalized, fun _ _ => readersAgree⟩

end StateBraid.LlamaCpp
