import StateBraid.LlamaCpp.Reference
import StateBraid.LlamaCpp.Reuse

/-!
# The stock HTTP adapter

The constructor of `LlamaCppHTTPAdapter` and the two checks it makes before every
completion: the audited source with its number of slots, and the requested slot among the
slots listed.
-/
namespace StateBraid.LlamaCpp
open Managed

/-- `JSONTransport.get_json`: what a path answers, or the exception it raises. -/
abbrev GetJson := String → Except PyError Json

/-- `DEFAULT_TRUST_DOMAIN`. -/
def defaultTrustDomain : String := "local-default"

/-- `[A-Za-z0-9._:-]`. -/
def isTrustDomainChar (c : Char) : Bool := c.isAlphanum || c ∈ ['.', '_', ':', '-']

/-- `validate_trust_domain`. -/
def validateTrustDomain (value : String) : Except PyError String :=
  if ¬ value.toList.all (fun c => c.toNat < 128) then
    .error (.valueError "cache namespace must contain ASCII characters only")
  else if value = "" then .error (.valueError "cache namespace must not be empty")
  else if value.length > 128 then
    .error (.valueError "cache namespace exceeds 128 ASCII bytes")
  else if (value.toList.head?).any Char.isAlphanum ∧ value.toList.all isTrustDomainChar then
    .ok value
  else
    .error (.valueError
      "cache namespace may contain only letters, digits, '.', '_', ':', or '-'")

/-- The fields of a constructed adapter, whose slot is not negative. -/
structure HttpAdapter where
  backendIdentity : String
  idSlot : ℤ
  idSlot_nonneg : 0 ≤ idSlot

namespace HttpAdapter

/-- `LlamaCppHTTPAdapter.__init__`. -/
def new (baseUrl : String) (idSlot : ℤ) (trustDomain : String) : Except PyError HttpAdapter :=
  if h : idSlot < 0 then .error (.valueError "llama.cpp id_slot must be non-negative")
  else
    match validateTrustDomain trustDomain with
    | .error e => .error e
    | .ok domain =>
      if domain ≠ defaultTrustDomain then
        .error (.unsupportedBackendCapability
          ("current llama.cpp public prompt cache has no request-scoped trust " ++
            "namespace; only local-default single-domain observation is safe"))
      else .ok ⟨stripSlashes baseUrl, idSlot, not_lt.mp h⟩

/-- `slots`. -/
def slots (get : GetJson) : Except PyError (List Json) :=
  match get "/slots" with
  | .error e => .error e
  | .ok (.arr items) =>
    if items.all Json.isObject then .ok items
    else .error (.valueError "llama.cpp /slots did not return a slot list")
  | .ok _ => .error (.valueError "llama.cpp /slots did not return a slot list")

/-- `_require_reference_source`: the number of slots. -/
def requireReferenceSource (get : GetJson) : Except PyError ℤ :=
  match get "/props" with
  | .error e => .error e
  | .ok props =>
    if ¬ props.isObject then
      .error (.unsupportedBackendCapability
        ("llama.cpp /props did not return an object; source qualification " ++
          "cannot be established"))
    else if ¬ (props.get "build_info").asStr?.any referenceSourceMatch then
      .error (.unsupportedBackendCapability
        ("running llama.cpp source is not the audited Phase 8 reference: expected " ++
          referenceSha ++ ", found " ++
          (((props.get "build_info").asStr?.bind sourceCommit).getD "unknown")))
    else
      match (props.get "total_slots").asInt? with
      | some totalSlots =>
        if totalSlots ≤ 0 then
          .error (.unsupportedBackendCapability
            "llama.cpp /props lacks a positive integer total_slots")
        else .ok totalSlots
      | none =>
        .error (.unsupportedBackendCapability
          "llama.cpp /props lacks a positive integer total_slots")

/-- The integer ids among some slots. -/
def integerIds (items : List Json) : List ℤ := items.filterMap (fun item => (item.get "id").asInt?)

/-- `_require_exact_slot`, which counts the ids as a set. -/
def requireExactSlot (A : HttpAdapter) (get : GetJson) (totalSlots : ℤ) : Except PyError Unit :=
  match slots get with
  | .error e => .error e
  | .ok items =>
    let slotIds := (integerIds items).toFinset
    if slotIds.card ≠ items.length ∨ slotIds.card ≠ totalSlots then
      .error (.unsupportedBackendCapability
        "llama.cpp /props total_slots does not match the valid /slots entries")
    else if A.idSlot ∉ slotIds then
      .error (.valueError ("llama.cpp id_slot " ++ toString A.idSlot ++
        " is not present in /slots; refusing upstream modulo slot wrapping"))
    else .ok ()

/-- What `lookup` checks before it sends a completion. -/
def preflight (A : HttpAdapter) (get : GetJson) : Except PyError Unit :=
  match requireReferenceSource get with
  | .error e => .error e
  | .ok totalSlots => A.requireExactSlot get totalSlots

end HttpAdapter

end StateBraid.LlamaCpp
