import Mathlib.Data.List.Infix
import Mathlib.Order.Bounds.Basic

/-!
# Longest prefixes

Among the words a set holds, the longest nonempty one that a query starts with, and a
search for it from the full length down. Then the letters that several words begin with
alike, found by comparing them two at a time.
-/
namespace Library

variable {α : Type}

/-- `word` is the longest nonempty prefix of the query in the set. -/
structure IsLongestPrefix (S : List α → Prop) (query word : List α) : Prop where
  mem : S word
  nonempty : word ≠ []
  isPrefix : word <+: query
  longest : ∀ w, S w → w ≠ [] → w <+: query → w.length ≤ word.length

namespace IsLongestPrefix

variable {S : List α → Prop} {query word : List α}

/-- A query that the set holds is its own longest prefix. -/
theorem self (hmem : S query) (hquery : query ≠ []) : IsLongestPrefix S query query :=
  ⟨hmem, hquery, List.prefix_refl query, fun _ _ _ hprefix => hprefix.length_le⟩

theorem append_drop (h : IsLongestPrefix S query word) :
    word ++ query.drop word.length = query := by
  obtain ⟨rest, rfl⟩ := h.isPrefix
  rw [List.drop_left]

theorem take_length (h : IsLongestPrefix S query word) : query.take word.length = word := by
  obtain ⟨rest, rfl⟩ := h.isPrefix
  exact List.take_left

theorem unique {word' : List α} (h : IsLongestPrefix S query word)
    (h' : IsLongestPrefix S query word') : word = word' := by
  have hle := h'.longest word h.mem h.nonempty h.isPrefix
  have hge := h.longest word' h'.mem h'.nonempty h'.isPrefix
  rw [← h.take_length, ← h'.take_length, le_antisymm hle hge]

/-- What is left of the query is empty only when the set holds all of it. -/
theorem eq_of_drop_eq_nil (h : IsLongestPrefix S query word)
    (hrest : query.drop word.length = []) : word = query := by
  have happend := h.append_drop
  rwa [hrest, List.append_nil] at happend

end IsLongestPrefix

/-- The search, from prefixes of length `n` down. -/
def longestPrefix? (S : List α → Bool) (query : List α) : ℕ → Option (List α)
  | 0 => none
  | n + 1 =>
    if S (query.take (n + 1)) then some (query.take (n + 1)) else longestPrefix? S query n

/-- What the search finds is the longest among the prefixes it looked at. -/
theorem longestPrefix?_some {S : List α → Bool} {query word : List α} {n : ℕ}
    (hn : n ≤ query.length) (h : longestPrefix? S query n = some word) :
    S word ∧ word ≠ [] ∧ word <+: query ∧
      ∀ w, S w → w ≠ [] → w <+: query → w.length ≤ n → w.length ≤ word.length := by
  induction n with
  | zero => simp [longestPrefix?] at h
  | succ n ih =>
    rw [longestPrefix?] at h
    split at h
    · rename_i hmem
      obtain rfl := Option.some.inj h
      have hlength : (query.take (n + 1)).length = n + 1 := List.length_take_of_le hn
      refine ⟨hmem, ?_, List.take_prefix _ _, fun w _ _ _ hw => by rwa [hlength]⟩
      intro hnil
      rw [hnil] at hlength
      cases hlength
    · rename_i hmem
      obtain ⟨hword, hne, hprefix, hlongest⟩ := ih (by omega) h
      refine ⟨hword, hne, hprefix, fun w hw hwne hwprefix hlength => ?_⟩
      refine hlongest w hw hwne hwprefix (Nat.le_of_lt_succ (lt_of_le_of_ne hlength ?_))
      intro heq
      rw [List.prefix_iff_eq_take.mp hwprefix, heq] at hw
      exact hmem hw

/-- A search that finds nothing looked at no word of the set. -/
theorem longestPrefix?_none {S : List α → Bool} {query : List α} {n : ℕ}
    (h : longestPrefix? S query n = none) :
    ∀ w, S w → w ≠ [] → w <+: query → w.length ≤ n → False := by
  induction n with
  | zero => exact fun w _ hne _ hlength => hne (List.length_eq_zero_iff.mp (by omega))
  | succ n ih =>
    rw [longestPrefix?] at h
    split at h
    · cases h
    · rename_i hmem
      intro w hw hne hprefix hlength
      refine ih h w hw hne hprefix (Nat.le_of_lt_succ (lt_of_le_of_ne hlength ?_))
      intro heq
      rw [List.prefix_iff_eq_take.mp hprefix, heq] at hw
      exact hmem hw

/-- The whole search decides between the longest prefix and none. -/
theorem isLongestPrefix_of_search {S : List α → Bool} {query word : List α}
    (h : longestPrefix? S query query.length = some word) :
    IsLongestPrefix (fun w => S w) query word := by
  obtain ⟨hmem, hne, hprefix, hlongest⟩ := longestPrefix?_some le_rfl h
  exact ⟨hmem, hne, hprefix, fun w hw hwne hwprefix =>
    hlongest w hw hwne hwprefix hwprefix.length_le⟩

theorem not_isLongestPrefix_of_search {S : List α → Bool} {query : List α}
    (h : longestPrefix? S query query.length = none) (word : List α) :
    ¬ IsLongestPrefix (fun w => S w) query word := fun hword =>
  longestPrefix?_none h word hword.mem hword.nonempty hword.isPrefix hword.isPrefix.length_le

/-! ## Common prefixes -/

/-- The words agree on their first `n` letters, which each of them has. -/
def AgreeOn (n : ℕ) (words : List (List α)) : Prop :=
  ∃ w : List α, w.length = n ∧ ∀ word ∈ words, w <+: word

theorem AgreeOn.mono {m n : ℕ} {words : List (List α)} (h : AgreeOn n words) (hm : m ≤ n) :
    AgreeOn m words := by
  obtain ⟨w, rfl, hw⟩ := h
  exact ⟨w.take m, List.length_take_of_le hm,
    fun word hword => (List.take_prefix m w).trans (hw word hword)⟩

theorem AgreeOn.subset {n : ℕ} {words words' : List (List α)} (h : AgreeOn n words)
    (hsub : words' ⊆ words) : AgreeOn n words' := by
  obtain ⟨w, hlength, hw⟩ := h
  exact ⟨w, hlength, fun word hword => hw word (hsub hword)⟩

/-- What a word shares with some and with others it shares with all of them. -/
theorem AgreeOn.append {n : ℕ} {pivot : List α} {words words' : List (List α)}
    (h : AgreeOn n (pivot :: words)) (h' : AgreeOn n (pivot :: words')) :
    AgreeOn n (pivot :: (words ++ words')) := by
  obtain ⟨w, hlength, hw⟩ := h
  obtain ⟨w', hlength', hw'⟩ := h'
  have hsame : w' = w := by
    have hpivot := hw pivot List.mem_cons_self
    have hpivot' := hw' pivot List.mem_cons_self
    rw [List.prefix_iff_eq_take.mp hpivot, List.prefix_iff_eq_take.mp hpivot', hlength, hlength']
  subst hsame
  refine ⟨w', hlength, fun word hword => ?_⟩
  rcases List.mem_cons.mp hword with rfl | hword
  · exact hw word List.mem_cons_self
  · rcases List.mem_append.mp hword with hword | hword
    · exact hw word (List.mem_cons_of_mem _ hword)
    · exact hw' word (List.mem_cons_of_mem _ hword)

/-- So the longest agreement of all is the shorter one of two. -/
theorem isGreatest_agreeOn_append {m n : ℕ} {pivot : List α} {words words' : List (List α)}
    (h : IsGreatest {k | AgreeOn k (pivot :: words)} m)
    (h' : IsGreatest {k | AgreeOn k (pivot :: words')} n) :
    IsGreatest {k | AgreeOn k (pivot :: (words ++ words'))} (min m n) := by
  constructor
  · exact (AgreeOn.mono h.1 (min_le_left m n)).append (AgreeOn.mono h'.1 (min_le_right m n))
  · intro k hk
    refine le_min (h.2 (AgreeOn.subset hk ?_)) (h'.2 (AgreeOn.subset hk ?_))
    · exact List.cons_subset_cons _ (List.subset_append_left _ _)
    · exact List.cons_subset_cons _ (List.subset_append_right _ _)

theorem agreeOn_zero (words : List (List α)) : AgreeOn 0 words :=
  ⟨[], rfl, fun _ _ => List.nil_prefix⟩

theorem agreeOn_pair_succ {n : ℕ} {a b : α} {left right : List α} :
    AgreeOn (n + 1) [a :: left, b :: right] ↔ a = b ∧ AgreeOn n [left, right] := by
  constructor
  · rintro ⟨w, hlength, hw⟩
    obtain ⟨c, w, rfl⟩ := List.exists_cons_of_length_eq_add_one hlength
    obtain ⟨hca, hleft⟩ := List.cons_prefix_cons.mp (hw (a :: left) (by simp))
    obtain ⟨hcb, hright⟩ := List.cons_prefix_cons.mp (hw (b :: right) (by simp))
    exact ⟨hca.symm.trans hcb, w, by simpa using hlength, by simp [hleft, hright]⟩
  · rintro ⟨rfl, w, hlength, hw⟩
    exact ⟨a :: w, by simp [hlength], by simpa [List.cons_prefix_cons] using hw⟩

/-- The first mismatch of two words, or the end of the shorter one. -/
theorem isGreatest_agreeOn_pair [DecidableEq α] (left right : List α) :
    IsGreatest {n | AgreeOn n [left, right]}
      (((left.zip right).findIdx? (fun ab => ab.1 ≠ ab.2)).getD
        (min left.length right.length)) := by
  induction left generalizing right with
  | nil =>
    refine ⟨agreeOn_zero _, fun n hn => ?_⟩
    obtain ⟨w, rfl, hw⟩ := hn
    simpa using (hw [] (by simp)).length_le
  | cons a left ih =>
    cases right with
    | nil =>
      refine ⟨agreeOn_zero _, fun n hn => ?_⟩
      obtain ⟨w, rfl, hw⟩ := hn
      simpa using (hw [] (by simp)).length_le
    | cons b right =>
      by_cases hab : a = b
      · obtain ⟨hmem, hbound⟩ := ih right
        rw [List.zip_cons_cons, List.findIdx?_cons, if_neg (by simp [hab])]
        generalize (left.zip right).findIdx? (fun ab => ab.1 ≠ ab.2) = found at hmem hbound ⊢
        have hsucc : (found.map (fun i => i + 1)).getD
            (min (a :: left).length (b :: right).length) =
              found.getD (min left.length right.length) + 1 := by
          cases found with
          | none => simp
          | some i => rfl
        rw [hsucc]
        refine ⟨agreeOn_pair_succ.mpr ⟨hab, hmem⟩, fun n hn => ?_⟩
        cases n with
        | zero => exact Nat.zero_le _
        | succ n => exact Nat.succ_le_succ (hbound (agreeOn_pair_succ.mp hn).2)
      · rw [List.zip_cons_cons, List.findIdx?_cons, if_pos (by simp [hab])]
        refine ⟨agreeOn_zero _, fun n hn => ?_⟩
        cases n with
        | zero => exact le_rfl
        | succ n => exact absurd (agreeOn_pair_succ.mp hn).1 hab

end Library
