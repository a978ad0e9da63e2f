import Mathlib.Tactic

/-!
# The audited server source

The commit field of a server's `build_info`, found as `_BUILD_COMMIT_RE.findall` finds
it, and its comparison with the audited commits.
-/
namespace StateBraid.LlamaCpp

/-- `LLAMA_CPP_REFERENCE_SHA`. -/
def referenceSha : String := "465e49b9cea78a68b9c244ffb48d0ee24a82873d"

/-- `LLAMA_CPP_MANAGED_REFERENCE_SHA`. -/
def managedReferenceSha : String := "09a4891ddd3e546f29dffd38e1a00ab5a19085f6"

/-- `[0-9a-f]`. -/
def isHex (c : Char) : Bool := ('0' ≤ c ∧ c ≤ '9') ∨ ('a' ≤ c ∧ c ≤ 'f')

/-- `([0-9a-f]{7,40})(?:$|[ )])` at the front of a text: the group, and the text after
the match. A shorter run than the longest one is followed by a hexadecimal digit, so
only the longest can match. -/
def matchCommit (text : List Char) : Option (List Char × List Char) :=
  let run := text.takeWhile isHex
  if 7 ≤ run.length ∧ run.length ≤ 40 then
    match text.dropWhile isHex with
    | [] => some (run, [])
    | ['\n'] => some (run, ['\n'])
    | c :: rest => if c = ' ' ∨ c = ')' then some (run, rest) else none
  else none

/-- One attempt of the whole pattern: `^` only at the start of the string, else a dash
or a space in front of the group. -/
def matchHere (atStart : Bool) (text : List Char) : Option (List Char × List Char) :=
  (if atStart then matchCommit text else none).orElse fun _ =>
    match text with
    | c :: rest => if c = '-' ∨ c = ' ' then matchCommit rest else none
    | [] => none

/-- `findall`: the groups of the matches from left to right, each search starting where
the last match ended. The fuel bounds the characters passed. -/
def findCommits : ℕ → Bool → List Char → List (List Char)
  | 0, _, _ => []
  | fuel + 1, atStart, text =>
    match matchHere atStart text with
    | some (run, rest) => run :: findCommits fuel false rest
    | none =>
      match text with
      | [] => []
      | _ :: rest => findCommits fuel false rest

/-- `llama_cpp_source_commit`. -/
def sourceCommit (buildInfo : String) : Option String :=
  let text := buildInfo.toList.map Char.toLower
  ((findCommits (text.length + 1) true text).getLast?).map String.ofList

/-- Whether one of two texts is a prefix of the other. -/
def prefixOrExtension (reference commit : String) : Bool :=
  commit.toList.isPrefixOf reference.toList || reference.toList.isPrefixOf commit.toList

/-- `llama_cpp_reference_source_match`. -/
def referenceSourceMatch (buildInfo : String) : Bool :=
  (sourceCommit buildInfo).any (prefixOrExtension referenceSha)

/-- `llama_cpp_managed_reference_source_match`. -/
def managedReferenceSourceMatch (buildInfo : String) : Bool :=
  (sourceCommit buildInfo).any (prefixOrExtension managedReferenceSha)

end StateBraid.LlamaCpp
