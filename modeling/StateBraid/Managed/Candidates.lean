import Mathlib.Data.List.MinMax
import Mathlib.Data.Prod.Lex
import StateBraid.Managed.PromptCache

/-!
# The candidates of a prompt

`prepare` ranks the residents that share the first token of the prompt: longer common
prefixes first, then keys that the prompt starts with, then smaller states. What it picks
is a best resident in that order, and it picks nothing when there is no candidate.
-/

namespace StateBraid.Managed
open Library Policy WorkingSetPolicy LlamaCpp

/-! ## Common prefixes -/

/-- The count of `_token_lcp` is the greatest length of a common prefix. -/
theorem tokenLcp_isGreatest (left right : List ℤ) :
    IsGreatest {n | ∃ w, w <+: left ∧ w <+: right ∧ w.length = n} (tokenLcp left right) := by
  induction left generalizing right with
  | nil =>
    refine ⟨⟨[], List.nil_prefix, List.nil_prefix, by simp [tokenLcp]⟩, ?_⟩
    rintro n ⟨w, hleft, -, rfl⟩
    simp [List.prefix_nil.mp hleft]
  | cons a left ih =>
    cases right with
    | nil =>
      refine ⟨⟨[], List.nil_prefix, List.nil_prefix, by simp [tokenLcp]⟩, ?_⟩
      rintro n ⟨w, -, hright, rfl⟩
      simp [List.prefix_nil.mp hright]
    | cons b right =>
      by_cases hab : a = b
      · subst hab
        obtain ⟨⟨w, hleft, hright, hlength⟩, hgreatest⟩ := ih right
        rw [tokenLcp, if_pos rfl]
        refine ⟨⟨a :: w, List.cons_prefix_cons.mpr ⟨rfl, hleft⟩,
          List.cons_prefix_cons.mpr ⟨rfl, hright⟩, by simp [hlength]⟩, ?_⟩
        rintro n ⟨_ | ⟨c, w'⟩, hleft', hright', rfl⟩
        · simp
        · have hw' := hgreatest ⟨w', (List.cons_prefix_cons.mp hleft').2,
            (List.cons_prefix_cons.mp hright').2, rfl⟩
          simpa using hw'
      · rw [tokenLcp, if_neg hab]
        refine ⟨⟨[], List.nil_prefix, List.nil_prefix, rfl⟩, ?_⟩
        rintro n ⟨_ | ⟨c, w⟩, hleft, hright, rfl⟩
        · simp
        · have hca := (List.cons_prefix_cons.mp hleft).1
          have hcb := (List.cons_prefix_cons.mp hright).1
          exact absurd (hca.symm.trans hcb) hab

theorem tokenLcp_le_left (left right : List ℤ) : tokenLcp left right ≤ left.length := by
  obtain ⟨w, hleft, -, hlength⟩ := (tokenLcp_isGreatest left right).1
  exact hlength ▸ hleft.length_le

/-- The whole left word counts exactly when the right one starts with it. -/
theorem tokenLcp_eq_length_iff {left right : List ℤ} :
    tokenLcp left right = left.length ↔ left <+: right := by
  obtain ⟨⟨w, hleft, hright, hlength⟩, hgreatest⟩ := tokenLcp_isGreatest left right
  constructor
  · intro h
    rwa [hleft.eq_of_length (hlength.trans h)] at hright
  · intro h
    exact le_antisymm (tokenLcp_le_left left right) (hgreatest ⟨left, List.prefix_rfl, h, rfl⟩)

/-- Over a prompt that is not empty, something is shared when the first token is. -/
theorem tokenLcp_pos_iff {left right : List ℤ} (hright : right ≠ []) :
    0 < tokenLcp left right ↔ left.head? = right.head? := by
  cases right with
  | nil => exact absurd rfl hright
  | cons b right =>
    cases left with
    | nil => simp [tokenLcp]
    | cons a left =>
      rw [tokenLcp]
      split_ifs with hab <;> simp [hab]

/-! ## The order of the candidates -/

/-- `item[:3]`, in lexicographic order. -/
def Candidate.rank (c : Candidate) : ℕ ×ₗ Bool ×ₗ ℤ :=
  toLex (c.matched, toLex (c.whole, c.negBytes))

theorem Candidate.lt_iff (a b : Candidate) : a.lt b = true ↔ a.rank < b.rank := by
  simp only [Candidate.lt, Candidate.rank, decide_eq_true_eq, Prod.Lex.toLex_lt_toLex,
    Bool.lt_iff]

/-- `max` returns the first candidate of the highest rank. -/
theorem bestCandidate_eq_argmax (cs : List Candidate) :
    bestCandidate cs = cs.argmax Candidate.rank := by
  cases cs with
  | nil => rfl
  | cons c cs =>
    rw [bestCandidate, List.argmax, List.foldl_cons]
    change some (cs.foldl _ c) = cs.foldl _ (some c)
    induction cs generalizing c with
    | nil => rfl
    | cons d cs ih =>
      have hstep : List.argAux (fun b c => c.rank < b.rank) (some c) d =
          some (if c.lt d then d else c) := by
        simp only [List.argAux, Candidate.lt_iff]
        split_ifs <;> rfl
      rw [List.foldl_cons, List.foldl_cons, hstep]
      exact ih _

/-- The best candidate is one of the candidates. -/
theorem bestCandidate_mem {cs : List Candidate} {best : Candidate}
    (h : bestCandidate cs = some best) : best ∈ cs := by
  rw [bestCandidate_eq_argmax] at h
  exact List.argmax_mem h

/-! ## The best resident -/

/-- `key` is a resident that `prepare` may restore for a prompt: it shares a prefix, none
shares a longer one, among the longest none but it is a prefix of the prompt unless it is
one too, and among the rest none is smaller. -/
structure BestMatch (p : WorkingSetPolicy CacheNamespace) (prompt : List ℤ) (key : Key) : Prop where
  resident : key ∈ p.entries.keys
  shares : key.tokens.head? = prompt.head?
  longest : ∀ other ∈ p.entries.keys, tokenLcp other.tokens prompt ≤ tokenLcp key.tokens prompt
  whole : ∀ other ∈ p.entries.keys, tokenLcp other.tokens prompt = tokenLcp key.tokens prompt →
    other.tokens <+: prompt → key.tokens <+: prompt
  smallest : ∀ {other d e}, p.entries.get? other = some d → p.entries.get? key = some e →
    tokenLcp other.tokens prompt = tokenLcp key.tokens prompt →
    (other.tokens <+: prompt ↔ key.tokens <+: prompt) → e.nbytes ≤ d.nbytes

section Candidates

variable {A : Adapter} {p : WorkingSetPolicy CacheNamespace} {prompt : List ℤ}

/-- What the loop of `prepare` appends for a resident. -/
def candidateOf (prompt : List ℤ) (key : Key) (e : EntryState CacheNamespace) : Candidate :=
  ⟨tokenLcp key.tokens prompt, tokenLcp key.tokens prompt = key.tokens.length, -e.nbytes, key⟩

/-- One resident ranks no higher than another. -/
theorem candidateOf_rank_le_iff {key other : Key} {d e : EntryState CacheNamespace} :
    (candidateOf prompt other d).rank ≤ (candidateOf prompt key e).rank ↔
      tokenLcp other.tokens prompt < tokenLcp key.tokens prompt ∨
        tokenLcp other.tokens prompt = tokenLcp key.tokens prompt ∧
          (¬ other.tokens <+: prompt ∧ key.tokens <+: prompt ∨
            (other.tokens <+: prompt ↔ key.tokens <+: prompt) ∧ e.nbytes ≤ d.nbytes) := by
  simp only [Candidate.rank, candidateOf, Prod.Lex.toLex_le_toLex, Bool.lt_iff,
    decide_eq_false_iff_not, decide_eq_true_eq, decide_eq_decide, tokenLcp_eq_length_iff,
    neg_le_neg_iff]

/-- The candidates are the residents of the namespace that share the first token. -/
theorem mem_candidates {c : Candidate} : c ∈ candidates A p prompt ↔
    ∃ key e, p.entries.get? key = some e ∧ key.cacheNamespace = A.cacheNamespace ∧
      0 < tokenLcp key.tokens prompt ∧ c = candidateOf prompt key e := by
  unfold candidates
  rw [List.mem_filterMap]
  constructor
  · rintro ⟨⟨key, e⟩, hitem, hc⟩
    dsimp only at hc
    split_ifs at hc with hns hmatched
    cases hc
    exact ⟨key, e, Dict.get?_eq_some_iff.mpr hitem, not_not.mp hns, not_le.mp hmatched, rfl⟩
  · rintro ⟨key, e, hget, hns, hpos, rfl⟩
    refine ⟨(key, e), Dict.get?_eq_some_iff.mp hget, ?_⟩
    rw [if_neg (not_not.mpr hns), if_neg (not_le.mpr hpos)]
    rfl

variable (hns : ∀ {k}, k ∈ p.entries.keys → k.cacheNamespace = A.cacheNamespace)
  (hprompt : prompt ≠ [])
include hns hprompt

/-- A resident that shares the first token is a candidate. -/
theorem candidateOf_mem {key : Key} {e : EntryState CacheNamespace}
    (hget : p.entries.get? key = some e) (hshares : key.tokens.head? = prompt.head?) :
    candidateOf prompt key e ∈ candidates A p prompt :=
  mem_candidates.mpr ⟨key, e, hget, hns (Dict.mem_keys_of_get? hget),
    (tokenLcp_pos_iff hprompt).mpr hshares, rfl⟩

/-- No candidate, when no resident shares the first token. -/
theorem bestCandidate_eq_none_iff :
    bestCandidate (candidates A p prompt) = none ↔
      ∀ key ∈ p.entries.keys, key.tokens.head? ≠ prompt.head? := by
  rw [bestCandidate_eq_argmax, List.argmax_eq_none, List.eq_nil_iff_forall_not_mem]
  constructor
  · intro h key hkey hshares
    obtain ⟨e, he⟩ := Dict.mem_keys_iff.mp hkey
    exact h _ (candidateOf_mem hns hprompt he hshares)
  · intro h c hc
    obtain ⟨key, e, hget, -, hpos, rfl⟩ := mem_candidates.mp hc
    exact h key (Dict.mem_keys_of_get? hget) ((tokenLcp_pos_iff hprompt).mp hpos)

/-- The candidate of the highest rank belongs to a best resident. -/
theorem bestCandidate_bestMatch {best : Candidate}
    (h : bestCandidate (candidates A p prompt) = some best) : BestMatch p prompt best.key := by
  obtain ⟨key, e, hget, -, hpos, rfl⟩ := mem_candidates.mp (bestCandidate_mem h)
  rw [bestCandidate_eq_argmax] at h
  have hshares := (tokenLcp_pos_iff hprompt).mp hpos
  -- every resident that shares as much is a candidate too, and of no higher rank
  have hrank {other : Key} {d : EntryState CacheNamespace} (hother : p.entries.get? other = some d)
      (hlcp : tokenLcp key.tokens prompt ≤ tokenLcp other.tokens prompt) :=
    candidateOf_rank_le_iff.mp (List.le_of_mem_argmax (candidateOf_mem hns hprompt hother
      ((tokenLcp_pos_iff hprompt).mp (hpos.trans_le hlcp))) h)
  change BestMatch p prompt key
  refine ⟨Dict.mem_keys_of_get? hget, hshares, fun other hother => ?_,
    fun other hother hlcp hwhole => ?_, fun {other d e'} hother hkey hlcp hwhole => ?_⟩
  · obtain ⟨d, hd⟩ := Dict.mem_keys_iff.mp hother
    by_contra hlonger
    have hle := hrank hd (le_of_lt (not_le.mp hlonger))
    omega
  · obtain ⟨d, hd⟩ := Dict.mem_keys_iff.mp hother
    rcases hrank hd hlcp.ge with hshorter | ⟨-, ⟨-, hkey⟩ | ⟨hiff, -⟩⟩
    · omega
    · exact hkey
    · exact hiff.mp hwhole
  · rw [hget] at hkey
    cases hkey
    rcases hrank hother hlcp.ge with hshorter | ⟨-, ⟨hpart, hkey⟩ | ⟨-, hbytes⟩⟩
    · omega
    · exact absurd (hwhole.mpr hkey) hpart
    · exact hbytes

end Candidates

end StateBraid.Managed
