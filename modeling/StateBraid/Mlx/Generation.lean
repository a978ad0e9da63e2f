import StateBraid.Errors
import StateBraid.Library.Exec
import StateBraid.Library.Prefix

/-!
# Generation safety

An exact prompt-cache hit leaves nothing to feed the model. A trimmable cache then
gives its last token back; any other makes way for a cache of a shorter prefix, or
for none. The rule is written twice, over callbacks and natively in the server, and
both copies are translated here.
-/

namespace StateBraid.Mlx
open Library

variable {ε σ K C T : Type}

/-- `prompt[-1:]`. -/
def lastToken (prompt : List T) : List T := prompt.drop (prompt.length - 1)

/-- `ensure_generation_safe_exact_hit`. The trim is made in place, so `trimOne` gives
the trimmed cache back. -/
def ensureGenerationSafeExactHit (cache : Option C) (rest prompt : List T)
    (canTrim : C → Exec ε σ Bool) (trimOne : C → Exec ε σ C)
    (fetchShorter : List T → Exec ε σ (Option C × List T)) : Exec ε σ (Option C × List T) :=
  match cache with
  | none => pure (none, rest)
  | some c =>
    if rest ≠ [] ∨ prompt = [] then pure (some c, rest)
    else do
      let trimmable ← canTrim c
      if trimmable then
        let trimmed ← trimOne c
        pure (some trimmed, lastToken prompt)
      else
        let shorter ← fetchShorter prompt.dropLast
        match shorter.1 with
        | none => pure (none, prompt)
        | some prefixCache => pure (some prefixCache, shorter.2 ++ lastToken prompt)

/-- The two functions of `mlx_lm.models.cache` that the rule calls. -/
structure CacheModule (ε σ C : Type) where
  canTrimPromptCache : C → Exec ε σ Bool
  trimPromptCache : C → ℕ → Exec ε σ C

/-- `generation_safe_prompt_cache_hit` over the lookup of a prompt cache. -/
def generationSafePromptCacheHit (M : CacheModule ε σ C)
    (fetchNearestCache : K → List T → Exec ε σ (Option C × List T)) (modelKey : K)
    (prompt : List T) (cache : Option C) (rest : List T) : Exec ε σ (Option C × List T) :=
  ensureGenerationSafeExactHit cache rest prompt M.canTrimPromptCache
    (fun value => M.trimPromptCache value 1)
    (fun tokens => fetchNearestCache modelKey tokens)

/-- `_generation_safe_cache_hit`, the native copy of the server. -/
def generationSafeCacheHit (M : CacheModule ε σ C)
    (fetchNearestCache : K → List T → Exec ε σ (Option C × List T)) (modelKey : K)
    (prompt : List T) (cache : Option C) (rest : List T) : Exec ε σ (Option C × List T) :=
  match cache, rest, prompt with
  | none, rest, _ => pure (none, rest)
  | some cache, t :: rest, _ => pure (some cache, t :: rest)
  | some cache, [], [] => pure (some cache, [])
  | some cache, [], t :: prompt => do
    if ← M.canTrimPromptCache cache then
      let cache ← M.trimPromptCache cache 1
      pure (some cache, lastToken (t :: prompt))
    else
      let (prefixCache, prefixRest) ← fetchNearestCache modelKey (t :: prompt).dropLast
      if prefixCache.isNone then pure (none, t :: prompt)
      else pure (prefixCache, prefixRest ++ lastToken (t :: prompt))

theorem dropLast_append_lastToken (prompt : List T) :
    prompt.dropLast ++ lastToken prompt = prompt := by
  rw [lastToken, List.dropLast_eq_take, List.take_append_drop]

theorem lastToken_ne_nil {prompt : List T} (h : prompt ≠ []) : lastToken prompt ≠ [] := by
  have hlength := List.length_pos_iff.mpr h
  rw [lastToken, Ne, List.drop_eq_nil_iff]
  omega

/-- The two copies of the rule are one function. -/
theorem generationSafeCacheHit_eq (M : CacheModule ε σ C)
    (fetchNearestCache : K → List T → Exec ε σ (Option C × List T)) (modelKey : K)
    (prompt : List T) (cache : Option C) (rest : List T) :
    generationSafeCacheHit M fetchNearestCache modelKey prompt cache rest =
      generationSafePromptCacheHit M fetchNearestCache modelKey prompt cache rest := by
  unfold generationSafeCacheHit generationSafePromptCacheHit ensureGenerationSafeExactHit
  cases cache with
  | none => rfl
  | some cache =>
    cases rest with
    | cons t rest => simp
    | nil =>
      cases prompt with
      | nil => simp
      | cons t prompt =>
        simp only [ne_eq, not_true_eq_false, reduceCtorEq, or_self, if_false]
        congr 1
        funext trimmable
        split
        · rfl
        · congr 1
          funext shorter
          obtain ⟨prefixCache, prefixRest⟩ := shorter
          cases prefixCache <;> rfl

section Callbacks

variable {canTrim : C → Exec ε σ Bool} {trimOne : C → Exec ε σ C}
variable {fetchShorter : List T → Exec ε σ (Option C × List T)}
variable {cache : Option C} {c : C} {rest prompt : List T} {s s₁ s₂ : σ}

/-- A miss and a partial hit are passed on. -/
theorem ensureGenerationSafe_kept (h : cache = none ∨ rest ≠ [] ∨ prompt = []) :
    ensureGenerationSafeExactHit cache rest prompt canTrim trimOne fetchShorter s =
      (.ok (cache, rest), s) := by
  unfold ensureGenerationSafeExactHit
  cases cache with
  | none => rfl
  | some c =>
    have h : rest ≠ [] ∨ prompt = [] := by simpa using h
    simp only [if_pos h, Exec.pure_apply]

/-- A trimmable exact hit replays its last token. -/
theorem ensureGenerationSafe_trimmed {trimmed : C} (hprompt : prompt ≠ [])
    (hcan : canTrim c s = (.ok true, s₁)) (htrim : trimOne c s₁ = (.ok trimmed, s₂)) :
    ensureGenerationSafeExactHit (some c) [] prompt canTrim trimOne fetchShorter s =
      (.ok (some trimmed, lastToken prompt), s₂) := by
  have h : ¬ (([] : List T) ≠ [] ∨ prompt = []) := by simpa using hprompt
  simp only [ensureGenerationSafeExactHit, if_neg h, Exec.bind_of_ok hcan, if_true,
    Exec.bind_of_ok htrim, Exec.pure_apply]

/-- Any other exact hit is replaced by the lookup of one token less. -/
theorem ensureGenerationSafe_shorter {shorter : Option C × List T} (hprompt : prompt ≠ [])
    (hcan : canTrim c s = (.ok false, s₁))
    (hfetch : fetchShorter prompt.dropLast s₁ = (.ok shorter, s₂)) :
    ensureGenerationSafeExactHit (some c) [] prompt canTrim trimOne fetchShorter s =
      (.ok (shorter.1, if shorter.1.isNone then prompt
        else shorter.2 ++ lastToken prompt), s₂) := by
  have h : ¬ (([] : List T) ≠ [] ∨ prompt = []) := by simpa using hprompt
  simp only [ensureGenerationSafeExactHit, if_neg h, Exec.bind_of_ok hcan, Bool.false_eq_true,
    if_false, Exec.bind_of_ok hfetch]
  obtain ⟨prefixCache, prefixRest⟩ := shorter
  cases prefixCache <;> rfl

end Callbacks

/-! ## What is fed to the model -/

/-- The tokens a lookup result spares the model. -/
def covered (coverage : C → List T) (cache : Option C) : List T := (cache.map coverage).getD []

/-- A cache covers exactly what its remainder leaves out of the query; without a cache
the remainder is the whole query. -/
def LawfulResult (coverage : C → List T) (query : List T) (result : Option C × List T) : Prop :=
  covered coverage result.1 ++ result.2 = query

/-- Callbacks that return, with lawful results; a trim shortens a trimmable cache by its
last token. -/
structure LawfulCallbacks (coverage : C → List T) (canTrim : C → Exec ε σ Bool)
    (trimOne : C → Exec ε σ C) (fetchShorter : List T → Exec ε σ (Option C × List T)) :
    Prop where
  asks : ∀ c s, ∃ trimmable s', canTrim c s = (.ok trimmable, s')
  trims : ∀ c s s', coverage c ≠ [] → canTrim c s = (.ok true, s') →
    ∃ trimmed s'', trimOne c s' = (.ok trimmed, s'') ∧
      coverage trimmed = (coverage c).dropLast
  fetches : ∀ query s, ∃ result s', fetchShorter query s = (.ok result, s') ∧
    LawfulResult coverage query result

/-- From a lawful result the rule leaves at least one token to feed, and cache and
remainder make up the prompt; the native copy does the same on any input. -/
theorem generation_input_exact {coverage : C → List T} {canTrim : C → Exec ε σ Bool}
    {trimOne : C → Exec ε σ C} {fetchShorter : List T → Exec ε σ (Option C × List T)}
    (hcalls : LawfulCallbacks coverage canTrim trimOne fetchShorter) {prompt : List T}
    (hprompt : prompt ≠ []) {cache : Option C} {rest : List T}
    (hlookup : LawfulResult coverage prompt (cache, rest)) (s : σ) :
    (∃ cache' rest' s',
      ensureGenerationSafeExactHit cache rest prompt canTrim trimOne fetchShorter s =
        (.ok (cache', rest'), s') ∧
      rest' ≠ [] ∧ covered coverage cache' ++ rest' = prompt) ∧
    ∀ (M : CacheModule ε σ C) (fetchNearestCache : K → List T → Exec ε σ (Option C × List T))
      (modelKey : K) (query : List T) (found : Option C) (left : List T) (t : σ),
      generationSafeCacheHit M fetchNearestCache modelKey query found left t =
        generationSafePromptCacheHit M fetchNearestCache modelKey query found left t := by
  refine ⟨?_, fun M fetch key query found left t => by rw [generationSafeCacheHit_eq]⟩
  by_cases hkept : cache = none ∨ rest ≠ [] ∨ prompt = []
  · refine ⟨cache, rest, s, ensureGenerationSafe_kept hkept, ?_, hlookup⟩
    rcases hkept with rfl | hrest | hnil
    · have hrest : rest = prompt := hlookup
      rwa [hrest]
    · exact hrest
    · exact absurd hnil hprompt
  · obtain ⟨hhit, rfl, -⟩ : cache ≠ none ∧ rest = [] ∧ prompt ≠ [] := by simpa using hkept
    obtain ⟨c, rfl⟩ := Option.ne_none_iff_exists'.mp hhit
    have hexact : coverage c = prompt := by simpa [LawfulResult, covered] using hlookup
    obtain ⟨trimmable, s₁, hcan⟩ := hcalls.asks c s
    cases trimmable with
    | true =>
      obtain ⟨trimmed, s₂, htrim, hshorter⟩ := hcalls.trims c s s₁ (by rwa [hexact]) hcan
      refine ⟨_, _, s₂, ensureGenerationSafe_trimmed hprompt hcan htrim,
        lastToken_ne_nil hprompt, ?_⟩
      change coverage trimmed ++ lastToken prompt = prompt
      rw [hshorter, hexact, dropLast_append_lastToken]
    | false =>
      obtain ⟨⟨prefixCache, prefixRest⟩, s₂, hfetch, hlawful⟩ :=
        hcalls.fetches prompt.dropLast s₁
      refine ⟨_, _, s₂, ensureGenerationSafe_shorter hprompt hcan hfetch, ?_⟩
      cases prefixCache with
      | none => exact ⟨hprompt, rfl⟩
      | some p =>
        have hlawful : coverage p ++ prefixRest = prompt.dropLast := hlawful
        refine ⟨by simp [lastToken_ne_nil hprompt], ?_⟩
        change coverage p ++ (prefixRest ++ lastToken prompt) = prompt
        rw [← List.append_assoc, hlawful, dropLast_append_lastToken]

namespace Sample

/-- A prompt cache whose payloads are the tokens they cover. -/
def fetch (stored : List (List ℤ)) (query : List ℤ) :
    Exec PyError Unit (Option (List ℤ) × List ℤ) :=
  match longestPrefix? (· ∈ stored) query query.length with
  | some payload => pure (some payload, query.drop payload.length)
  | none => pure (none, query)

/-- Payloads of up to `limit` tokens can be trimmed. -/
def canTrim (limit : ℕ) (payload : List ℤ) : Exec PyError Unit Bool :=
  pure (payload.length ≤ limit)

def trim (payload : List ℤ) : Exec PyError Unit (List ℤ) := pure payload.dropLast

theorem lawful (stored : List (List ℤ)) (limit : ℕ) :
    LawfulCallbacks id (canTrim limit) trim (fetch stored) where
  asks c s := ⟨_, s, rfl⟩
  trims c s s' _ _ := ⟨_, s', rfl, rfl⟩
  fetches query s := by
    unfold fetch
    cases h : longestPrefix? (· ∈ stored) query query.length with
    | none => exact ⟨_, s, rfl, rfl⟩
    | some payload => exact ⟨_, s, rfl, (isLongestPrefix_of_search h).append_drop⟩

end Sample

/-- A cache of three tokens that cannot be trimmed makes way for the prefix of one. -/
theorem shorter_prefix_input_exact :
    (∃ cache' rest' s', ensureGenerationSafeExactHit (some [7, 8, 9]) [] [7, 8, 9]
        (Sample.canTrim 2) Sample.trim (Sample.fetch [[7, 8, 9], [7]]) () =
          (.ok (cache', rest'), s') ∧
      rest' ≠ [] ∧ covered id cache' ++ rest' = [7, 8, 9]) ∧
    ensureGenerationSafeExactHit (some [7, 8, 9]) [] [7, 8, 9]
        (Sample.canTrim 2) Sample.trim (Sample.fetch [[7, 8, 9], [7]]) () =
      (.ok (some [7], [8, 9]), ()) :=
  ⟨(generation_input_exact (K := ℤ) (Sample.lawful [[7, 8, 9], [7]] 2) (by decide) rfl ()).1, rfl⟩

end StateBraid.Mlx
