import StateBraid.LlamaCpp.HttpAdapter

/-!
# The compatibility probe

`probe_llama_cpp_server` makes the adapter's checks a second time, for its report. It counts
the entries of the slot list where the adapter counts the set of their ids, and it knows no
adapter that refuses a negative slot: the two agree exactly where the ids of a server that
passes its checks are distinct and not negative.
-/
namespace StateBraid.LlamaCpp
open Managed

/-- `LlamaCppCompatibilityReport`, without the fields that are constants. -/
structure CompatibilityReport where
  reachable : Bool
  compatible : Bool
  slotsEndpoint : Bool
  slotCount : ℕ
  totalSlots : Option ℤ
  buildInfo : Option String
  sourceCommit : Option String
  referenceSourceMatch : Bool
  issues : List String

/-- `type(exc).__name__` and `str(exc)`. -/
def describe : PyError → String
  | .typeError message => "TypeError: " ++ message
  | .valueError message => "ValueError: " ++ message
  | .keyError message => "KeyError: " ++ message
  | .runtimeError message => "RuntimeError: " ++ message
  | .unsupportedBackendCapability message => "UnsupportedBackendCapability: " ++ message
  | .osError message => "OSError: " ++ message
  | .httpError message => "HTTPError: " ++ message

/-- The entries of the slot list with an integer id. -/
def validSlots (items : List Json) : List Json :=
  items.filter (fun item => item.isObject && (item.get "id").asInt?.isSome)

/-- The findings on the slot list. -/
def slotIssues (items : List Json) : List String :=
  if (validSlots items).length ≠ items.length ∨ validSlots items = [] then
    ["llama.cpp /slots lacks at least one valid integer slot id"]
  else []

/-- The findings on the source. -/
def sourceIssues (buildInfo : Option String) : List String :=
  match buildInfo with
  | none => ["llama.cpp /props lacks build_info"]
  | some info =>
    if sourceCommit info = none then
      ["llama.cpp build_info does not expose a parseable commit hash"]
    else if ¬ referenceSourceMatch info then
      ["running llama.cpp commit differs from the Phase 8 audited reference; " ++
        "capability qualification is fail-closed for unaudited source"]
    else []

/-- The findings on the number of slots. -/
def totalIssues (totalSlots : Option ℤ) (count : ℕ) : List String :=
  match totalSlots with
  | none => ["llama.cpp /props lacks a positive integer total_slots"]
  | some total =>
    if total ≠ count then
      ["llama.cpp /props total_slots does not match the valid /slots entries"]
    else []

/-- The report on an object and a list. Every finding, and nothing else, sets `compatible`
to false. -/
def reportOn (props : Json) (items : List Json) : CompatibilityReport :=
  let valid := validSlots items
  let buildInfo := (props.get "build_info").asStr?
  let totalSlots := (props.get "total_slots").asInt?.filter (fun total => 0 < total)
  let issues := slotIssues items ++ sourceIssues buildInfo ++ totalIssues totalSlots valid.length
  { reachable := true
    compatible := issues.isEmpty
    slotsEndpoint := true
    slotCount := valid.length
    totalSlots := totalSlots
    buildInfo := buildInfo
    sourceCommit := buildInfo.bind sourceCommit
    referenceSourceMatch := buildInfo.any referenceSourceMatch
    issues := issues ++
      ["single-domain reuse observation only; shared prompt cache has no StateBraid trust " ++
        "namespace"] }

/-- `isinstance(slots, list)`. -/
def isList : Json → Bool
  | .arr _ => true
  | _ => false

/-- `probe_llama_cpp_server`. -/
def probeServer (get : GetJson) : CompatibilityReport :=
  match get "/props" with
  | .error e => unreachable e
  | .ok props =>
    match get "/slots" with
    | .error e => unreachable e
    | .ok slots =>
      if ¬ props.isObject then
        { reachable := true, compatible := false, slotsEndpoint := isList slots, slotCount := 0
          totalSlots := none, buildInfo := none, sourceCommit := none
          referenceSourceMatch := false
          issues := ["llama.cpp /props response is not an object"] }
      else
        match slots with
        | .arr items => reportOn props items
        | _ =>
          { reachable := true, compatible := false, slotsEndpoint := false, slotCount := 0
            totalSlots := (props.get "total_slots").asInt?
            buildInfo := (props.get "build_info").asStr?, sourceCommit := none
            referenceSourceMatch := false
            issues := ["llama.cpp /slots response is not a list"] }
where
  /-- The report on a server that does not answer. -/
  unreachable (e : PyError) : CompatibilityReport :=
    { reachable := false, compatible := false, slotsEndpoint := false, slotCount := 0
      totalSlots := none, buildInfo := none, sourceCommit := none, referenceSourceMatch := false
      issues := ["llama.cpp public API probe failed: " ++ describe e] }

end StateBraid.LlamaCpp
