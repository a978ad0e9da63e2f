import StateBraid.Errors
import StateBraid.Managed.Json
import StateBraid.Policy.State

/-!
# Reuse evidence

The observation of one bounded completion: the server's timings, checked against the
prompt, become the prefix that was actually reused.
-/
namespace StateBraid.LlamaCpp
open Policy Managed

/-- `LookupObservation`: the prefix of a prompt that a backend reused. -/
structure LookupObservation (N π : Type) where
  cacheNamespace : N
  prompt : List ℤ
  remaining : List ℤ
  payload : Option π
  matchedKey : Option (CacheKey N)

/-- `matched_tokens`. -/
def LookupObservation.matchedTokens {N π : Type} (o : LookupObservation N π) : ℕ :=
  match o.matchedKey with
  | none => 0
  | some key => key.tokens.length

/-- `LookupObservation.from_backend_result`. -/
def LookupObservation.fromBackendResult {N π : Type} (cacheNamespace : N) (prompt : List ℤ)
    (payload : Option π) (remaining : List ℤ) : Except PyError (LookupObservation N π) :=
  if remaining.length > prompt.length then
    .error (.valueError "backend lookup remainder is longer than the prompt")
  else
    let matchedLen := prompt.length - remaining.length
    if remaining ≠ prompt.drop matchedLen then
      .error (.valueError "backend lookup remainder is not an exact prompt suffix")
    else if payload.isNone ∧ matchedLen ≠ 0 then
      .error (.valueError "backend reported a matched prefix without a payload")
    else if payload.isSome ∧ matchedLen = 0 then
      .error (.valueError "backend returned a payload without a matched prefix")
    else
      .ok {
        cacheNamespace := cacheNamespace
        prompt := prompt
        remaining := remaining
        payload := payload
        matchedKey :=
          if matchedLen ≠ 0 then some ⟨cacheNamespace, prompt.take matchedLen⟩ else none }

/-- `LlamaCppReuseHandle`. -/
structure ReuseHandle where
  backendIdentity : String
  idSlot : ℕ
  cacheN : ℤ

/-- `LlamaCppReuseStats`. -/
structure ReuseStats where
  cacheN : ℤ
  promptN : ℤ

/-- `LlamaCppReuseStats.from_response`. -/
def ReuseStats.fromResponse (response : Json) (promptLength : ℕ) : Except PyError ReuseStats :=
  let timings := response.get "timings"
  if ¬ timings.isObject then .error (.valueError "llama.cpp response is missing timings")
  else
    match (timings.get "cache_n").asInt?, (timings.get "prompt_n").asInt? with
    | none, _ => .error (.valueError "llama.cpp timings.cache_n must be an integer")
    | some _, none => .error (.valueError "llama.cpp timings.prompt_n must be an integer")
    | some cacheN, some promptN =>
      if cacheN < 0 ∨ cacheN > promptLength then
        .error (.valueError ("llama.cpp cache_n " ++ toString cacheN ++
          " is outside prompt length " ++ toString promptLength))
      else if promptN < 0 then
        .error (.valueError "llama.cpp prompt_n must be non-negative")
      else if cacheN + promptN ≠ promptLength then
        .error (.valueError ("llama.cpp timing evidence is inconsistent with the bounded " ++
          "token prompt: cache_n(" ++ toString cacheN ++ ") + prompt_n(" ++ toString promptN ++
          ") != prompt_length(" ++ toString promptLength ++ ")"))
      else .ok ⟨cacheN, promptN⟩

/-- `str.rstrip("/")`. -/
def stripSlashes (s : String) : String :=
  String.ofList (s.toList.reverse.dropWhile (· = '/')).reverse

/-- The namespace of the one server-wide cache. -/
abbrev CacheNamespace := String × String × String

/-- `llama_cpp_cache_namespace`. -/
def cacheNamespace (backendIdentity : String) : CacheNamespace :=
  ("llama.cpp", stripSlashes backendIdentity, "local-default")

/-- `normalize_llama_cpp_reuse`. -/
def normalizeReuse (backendIdentity : String) (idSlot : ℕ) (promptTokens : List ℤ)
    (response : Json) : Except PyError (LookupObservation CacheNamespace ReuseHandle) :=
  match ReuseStats.fromResponse response promptTokens.length with
  | .error e => .error e
  | .ok stats =>
    LookupObservation.fromBackendResult (cacheNamespace backendIdentity) promptTokens
      (if stats.cacheN ≠ 0 then some ⟨backendIdentity, idSlot, stats.cacheN⟩ else none)
      (promptTokens.drop stats.cacheN.toNat)

end StateBraid.LlamaCpp
