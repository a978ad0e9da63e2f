import StateBraid.LlamaCpp.Reference

/-!
# The last commit field

A commit field is a run of hexadecimal digits between an opening and a closing text.
The space that closes a match is consumed by it, so it cannot open the next field: of
fields that follow each other at one space, the scan takes the first, the third and so
on. The last match is the last field unless that field is skipped in this way.
-/
namespace StateBraid.LlamaCpp

/-- The text that a search is made in: `build_info.lower()`. Outside ASCII no lower case
is a hexadecimal digit or a delimiter. -/
def lowered (buildInfo : String) : List Char := buildInfo.toList.map Char.toLower

/-- A run of hexadecimal digits as long as a commit, and the text that closes it. -/
structure IsCommit (run after : List Char) : Prop where
  hex : ∀ c ∈ run, isHex c = true
  long : 7 ≤ run.length
  short : run.length ≤ 40
  closes : after = [] ∨ after = ['\n'] ∨ ∃ c rest, after = c :: rest ∧ (c = ' ' ∨ c = ')')

/-- A commit field of a text: it opens at the start or behind a dash or a space. -/
structure CommitField (text before run after : List Char) : Prop where
  split : text = before ++ (run ++ after)
  opens : before = [] ∨ ∃ front c, before = front ++ [c] ∧ (c = '-' ∨ c = ' ')
  commit : IsCommit run after

/-- The rightmost of the commit fields that satisfy a condition on where they begin. -/
structure LastField (text : List Char) (P : List Char → Prop) (before run : List Char) :
    Prop where
  field : ∃ after, CommitField text before run after
  holds : P before
  last : ∀ before' run' after', CommitField text before' run' after' → P before' →
    before'.length ≤ before.length

/-- The run of the last commit field. -/
def LastRun (text run : List Char) : Prop := ∃ before, LastField text (fun _ => True) before run

/-- The place of a field among fields that follow each other at one space, from 0. -/
inductive Place (text : List Char) : List Char → ℕ → Prop
  | first {before : List Char} (h : ∀ before' run rest, before = before' ++ (run ++ [' ']) →
      ¬ CommitField text before' run (' ' :: rest)) : Place text before 0
  | next {before run rest : List Char} {n : ℕ}
      (hfield : CommitField text before run (' ' :: rest)) (h : Place text before n) :
      Place text (before ++ (run ++ [' '])) (n + 1)

/-- The last field stands one space behind a field of even place, and its run is another
one. -/
def Overlooked (text : List Char) : Prop :=
  ∃ before taken rest run n, CommitField text before taken (' ' :: rest) ∧
    Place text before n ∧ Even n ∧
    LastField text (fun _ => True) (before ++ (taken ++ [' '])) run ∧ taken ≠ run

/-- What the source gate is for: the commit is the run of the last field, and both gates
open exactly when that run is a prefix of the audited commit. -/
structure ReadsLastField (buildInfo : String) : Prop where
  commit : ∀ commit, sourceCommit buildInfo = some commit ↔
    LastRun (lowered buildInfo) commit.toList
  reference : referenceSourceMatch buildInfo = true ↔
    ∃ run, LastRun (lowered buildInfo) run ∧ run <+: referenceSha.toList
  managed : managedReferenceSourceMatch buildInfo = true ↔
    ∃ run, LastRun (lowered buildInfo) run ∧ run <+: managedReferenceSha.toList

/-! ## Fields -/

namespace IsCommit

variable {run after : List Char}

/-- The closing text does not begin with a hexadecimal digit. -/
theorem not_hex (h : IsCommit run after) : ∀ c ∈ after.head?, isHex c = false := by
  rcases h.closes with rfl | rfl | ⟨c, rest, rfl, rfl | rfl⟩ <;> simp <;> decide

theorem takeWhile (h : IsCommit run after) : (run ++ after).takeWhile isHex = run := by
  rw [List.takeWhile_append_of_pos h.hex]
  cases after with
  | nil => simp
  | cons c rest => simp [h.not_hex c rfl]

theorem dropWhile (h : IsCommit run after) : (run ++ after).dropWhile isHex = after := by
  rw [List.dropWhile_append_of_pos h.hex]
  cases after with
  | nil => simp
  | cons c rest => simp [h.not_hex c rfl]

end IsCommit

namespace CommitField

variable {text before run after before' run' after' : List Char}

/-- A text has one field at a place. -/
theorem unique (h : CommitField text before run after) (h' : CommitField text before run' after') :
    run = run' ∧ after = after' := by
  have htail : run ++ after = run' ++ after' :=
    List.append_cancel_left (h.split.symm.trans h'.split)
  constructor
  · calc run = (run ++ after).takeWhile isHex := h.commit.takeWhile.symm
      _ = run' := by rw [htail, h'.commit.takeWhile]
  · calc after = (run ++ after).dropWhile isHex := h.commit.dropWhile.symm
      _ = after' := by rw [htail, h'.commit.dropWhile]

theorem isPrefix (h : CommitField text before run after) : before <+: text :=
  ⟨_, h.split.symm⟩

theorem run_isPrefix (h : CommitField text before run after) : before ++ run <+: text :=
  ⟨after, by rw [h.split, List.append_assoc]⟩

/-- A field begins behind the end of every field to the left of it: what opens it is not
a hexadecimal digit. -/
theorem disjoint (h : CommitField text before run after)
    (h' : CommitField text before' run' after') (hlt : before.length < before'.length) :
    (before ++ run).length < before'.length := by
  by_contra hle
  obtain rfl | ⟨front, c, rfl, hc⟩ := h'.opens
  · simp at hlt
  obtain ⟨t, ht⟩ := List.prefix_of_prefix_length_le h'.isPrefix h.run_isPrefix (by omega)
  have hfront : before <+: front := by
    have hend : front <+: before ++ run := ⟨c :: t, by rw [← ht]; simp⟩
    refine List.prefix_of_prefix_length_le (List.prefix_append before run) hend ?_
    simp at hlt
    omega
  obtain ⟨u, rfl⟩ := hfront
  have hrun : run = u ++ c :: t := by simpa using ht.symm
  have hhex := h.commit.hex c (by simp [hrun])
  rcases hc with rfl | rfl <;> exact absurd hhex (by decide)

/-- Two fields at the same place of a text. -/
theorem eq_of_length (h : CommitField text before run after)
    (h' : CommitField text before' run' after') (heq : before.length = before'.length) :
    before = before' :=
  (List.prefix_of_prefix_length_le h.isPrefix h'.isPrefix heq.le).eq_of_length heq

/-- A field is known by where it ends. -/
theorem eq_of_end (h : CommitField text before run after)
    (h' : CommitField text before' run' after') (heq : before ++ run = before' ++ run') :
    before = before' := by
  have hlength := congrArg List.length heq
  rw [List.length_append, List.length_append] at hlength
  refine h.eq_of_length h' (le_antisymm ?_ ?_)
  · by_contra hlt
    have := h'.disjoint h (by omega)
    rw [List.length_append] at this
    omega
  · by_contra hlt
    have := h.disjoint h' (by omega)
    rw [List.length_append] at this
    omega

end CommitField

namespace Place

variable {text before : List Char} {m n : ℕ}

theorem unique (h : Place text before m) (h' : Place text before n) : m = n := by
  induction h generalizing n with
  | first hfirst =>
    cases h' with
    | first => rfl
    | next hfield _ => exact absurd hfield (hfirst _ _ _ rfl)
  | @next before run rest m hfield hplace ih =>
    generalize hwhole : before ++ (run ++ [' ']) = whole at h'
    cases h' with
    | first hfirst => exact absurd hfield (hfirst _ _ _ hwhole.symm)
    | next hfield' hplace' =>
      rw [← List.append_assoc, ← List.append_assoc] at hwhole
      obtain rfl := hfield.eq_of_end hfield' (List.append_inj_left' hwhole rfl)
      rw [ih hplace']

theorem exists_place (text : List Char) : ∀ before : List Char, ∃ n, Place text before n := by
  intro before
  induction hlength : before.length using Nat.strong_induction_on generalizing before with
  | _ length ih =>
    subst hlength
    by_cases hpred : ∃ before' run rest, before = before' ++ (run ++ [' ']) ∧
        CommitField text before' run (' ' :: rest)
    · obtain ⟨before', run, rest, rfl, hfield⟩ := hpred
      obtain ⟨n, hn⟩ := ih before'.length (by simp) before' rfl
      exact ⟨n + 1, .next hfield hn⟩
    · exact ⟨0, .first fun before' run rest heq hfield => hpred ⟨before', run, rest, heq, hfield⟩⟩

end Place

/-! ## One match -/

/-- Where the search goes on after a match: a closing space or bracket is consumed. -/
def pastCloser : List Char → List Char
  | [] => []
  | ['\n'] => ['\n']
  | _ :: rest => rest

theorem matchCommit_of_isCommit {run after : List Char} (h : IsCommit run after) :
    matchCommit (run ++ after) = some (run, pastCloser after) := by
  have hlength : 7 ≤ run.length ∧ run.length ≤ 40 := ⟨h.long, h.short⟩
  rw [matchCommit, h.takeWhile, h.dropWhile, if_pos hlength]
  rcases h.closes with rfl | rfl | ⟨c, rest, rfl, rfl | rfl⟩ <;> simp [pastCloser]

theorem isCommit_of_matchCommit {text run rest : List Char}
    (h : matchCommit text = some (run, rest)) :
    ∃ after, text = run ++ after ∧ IsCommit run after ∧ rest = pastCloser after := by
  unfold matchCommit at h
  dsimp only at h
  split_ifs at h with hlength
  have hcommit {after : List Char} (hafter : text.dropWhile isHex = after)
      (hcloses : after = [] ∨ after = ['\n'] ∨ ∃ c rest, after = c :: rest ∧ (c = ' ' ∨ c = ')')) :
      text = text.takeWhile isHex ++ after ∧ IsCommit (text.takeWhile isHex) after :=
    ⟨by rw [← hafter, List.takeWhile_append_dropWhile],
      fun c hc => List.all_eq_true.mp List.all_takeWhile c hc, hlength.1, hlength.2, hcloses⟩
  split at h
  · rename_i hafter
    obtain ⟨rfl, rfl⟩ := Prod.mk.inj (Option.some.inj h)
    obtain ⟨hsplit, hrun⟩ := hcommit hafter (Or.inl rfl)
    exact ⟨[], hsplit, hrun, rfl⟩
  · rename_i hafter
    obtain ⟨rfl, rfl⟩ := Prod.mk.inj (Option.some.inj h)
    obtain ⟨hsplit, hrun⟩ := hcommit hafter (Or.inr (Or.inl rfl))
    exact ⟨['\n'], hsplit, hrun, rfl⟩
  · rename_i c rest' _ hafter
    split_ifs at h with hc
    obtain ⟨rfl, rfl⟩ := Prod.mk.inj (Option.some.inj h)
    obtain ⟨hsplit, hrun⟩ := hcommit hafter (Or.inr (Or.inr ⟨c, rest', rfl, hc⟩))
    refine ⟨c :: rest', hsplit, hrun, ?_⟩
    rcases hc with rfl | rfl <;> rfl

/-- What a match consumes of the closing text. -/
def closer : List Char → List Char
  | [] => []
  | ['\n'] => []
  | c :: _ => [c]

theorem closer_append_pastCloser (after : List Char) :
    closer after ++ pastCloser after = after := by
  unfold closer
  split <;> simp_all [pastCloser]

theorem IsCommit.closer_cases {run after : List Char} (h : IsCommit run after) :
    (closer after = [] ∧ ∀ rest, after ≠ ' ' :: rest) ∨
      ∃ c, closer after = [c] ∧ (c = ' ' ∨ c = ')') := by
  rcases h.closes with rfl | rfl | ⟨c, rest, rfl, rfl | rfl⟩
  · exact Or.inl ⟨rfl, by simp⟩
  · exact Or.inl ⟨rfl, by simp⟩
  · exact Or.inr ⟨' ', rfl, Or.inl rfl⟩
  · exact Or.inr ⟨')', rfl, Or.inr rfl⟩

/-! ## The scan -/

/-- A place that the search, having passed `done`, can still begin a match at. -/
def Ahead (done before : List Char) : Prop :=
  done.length < before.length ∨ done.length = 0 ∧ before.length = 0

theorem ahead_nil (before : List Char) : Ahead [] before := by
  rcases Nat.eq_zero_or_pos before.length with hzero | hpos
  · exact Or.inr ⟨rfl, hzero⟩
  · exact Or.inl hpos

/-- The fields that the scan takes. -/
def Taken (text before : List Char) : Prop := ∃ n, Place text before n ∧ Even n

/-- A field that is not taken stands one space behind a taken one. -/
theorem taken_or_next (text before : List Char) : Taken text before ∨
    ∃ pred run rest m, before = pred ++ (run ++ [' ']) ∧
      CommitField text pred run (' ' :: rest) ∧ Place text pred m ∧ Even m := by
  obtain ⟨n, hplace⟩ := Place.exists_place text before
  by_cases heven : Even n
  · exact Or.inl ⟨n, hplace, heven⟩
  · cases hplace with
    | first => exact absurd Even.zero heven
    | @next pred run rest m hpred hplace =>
      rw [Nat.even_add_one, not_not] at heven
      exact Or.inr ⟨pred, run, rest, m, rfl, hpred, hplace, heven⟩

/-- A field one space behind a taken one is not taken. -/
theorem not_taken_next {text before run rest : List Char} {n : ℕ}
    (hfield : CommitField text before run (' ' :: rest)) (hplace : Place text before n)
    (heven : Even n) : ¬ Taken text (before ++ (run ++ [' '])) := by
  rintro ⟨m, hm, hmeven⟩
  rw [hm.unique (.next hfield hplace), Nat.even_add_one] at hmeven
  exact hmeven heven

/-- A match tried at the end of `done`. -/
structure MatchedAt (text done before run after : List Char) : Prop where
  field : CommitField text before run after
  ahead : Ahead done before
  near : before.length ≤ done.length + 1

theorem matchHere_some {done text run rest : List Char}
    (h : matchHere (decide (done = [])) text = some (run, rest)) :
    ∃ before after, MatchedAt (done ++ text) done before run after ∧ rest = pastCloser after := by
  unfold matchHere at h
  rw [Option.orElse_eq_or, Option.or_eq_some_iff] at h
  rcases h with hstart | ⟨-, hopened⟩
  · split_ifs at hstart with hdone
    obtain rfl : done = [] := of_decide_eq_true hdone
    obtain ⟨after, rfl, hcommit, hrest⟩ := isCommit_of_matchCommit hstart
    exact ⟨[], after, ⟨⟨rfl, Or.inl rfl, hcommit⟩, Or.inr ⟨rfl, rfl⟩, by simp⟩, hrest⟩
  · cases text with
    | nil => cases hopened
    | cons c text =>
      dsimp only at hopened
      split_ifs at hopened with hc
      obtain ⟨after, rfl, hcommit, hrest⟩ := isCommit_of_matchCommit hopened
      refine ⟨done ++ [c], after, ⟨⟨by simp, Or.inr ⟨done, c, rfl, hc⟩, hcommit⟩, ?_, ?_⟩, hrest⟩
      · exact Or.inl (by simp)
      · simp

/-- Where no match begins, every field that is still to come begins further right. -/
theorem matchHere_none {done text before run after : List Char}
    (h : matchHere (decide (done = [])) text = none)
    (hfield : CommitField (done ++ text) before run after) (hahead : Ahead done before) :
    done.length + 1 < before.length := by
  unfold matchHere at h
  rw [Option.orElse_eq_or, Option.or_eq_none_iff] at h
  obtain ⟨hstart, hopened⟩ := h
  by_contra hnear
  obtain rfl | ⟨front, c, rfl, hc⟩ := hfield.opens
  · obtain rfl : done = [] := List.length_eq_zero_iff.mp (by simpa [Ahead] using hahead)
    have htext : text = run ++ after := hfield.split
    rw [htext, if_pos (by simp), matchCommit_of_isCommit hfield.commit] at hstart
    cases hstart
  · have hlength : done.length = front.length := by
      simp [Ahead] at hahead hnear
      omega
    have hsplit : done ++ text = front ++ (c :: (run ++ after)) := by simpa using hfield.split
    obtain ⟨rfl, rfl⟩ := List.append_inj hsplit hlength
    dsimp only at hopened
    rw [if_pos hc, matchCommit_of_isCommit hfield.commit] at hopened
    cases hopened

/-- The fields that were taken, and stand in front of a space, lie behind the search. -/
def Settled (text done : List Char) : Prop :=
  ∀ before run rest, CommitField text before run (' ' :: rest) → Taken text before →
    ¬ Ahead done before → (before ++ run).length < done.length

namespace MatchedAt

variable {text done before run after : List Char}

/-- What is matched is a field that the scan is said to take: the space in front of it was
not consumed by a taken one. -/
theorem taken (h : MatchedAt text done before run after) (hsettled : Settled text done) :
    Taken text before := by
  obtain ⟨n, hplace⟩ := Place.exists_place text before
  refine ⟨n, hplace, ?_⟩
  cases hplace with
  | first => exact Even.zero
  | @next before' run' rest n hfield hplace =>
    by_contra hodd
    have heven : Even n := by
      rw [Nat.even_add_one] at hodd
      exact not_not.mp hodd
    have hahead := h.ahead
    have hnear := h.near
    have hlong := hfield.commit.long
    simp only [Ahead, List.length_append, List.length_singleton] at hahead hnear
    have hbehind := hsettled before' run' rest hfield ⟨n, hplace, heven⟩ (by
      simp only [Ahead]
      omega)
    rw [List.length_append] at hbehind
    omega

/-- A field that begins right behind the closing character opens with it: it is a space. -/
theorem closer_eq_space (h : MatchedAt text done before run after)
    {before' run' after' : List Char} {c : Char} (hcloser : closer after = [c])
    (hfield : CommitField text before' run' after')
    (hlength : (before ++ (run ++ [c])).length = before'.length) :
    before' = before ++ (run ++ [c]) ∧ c = ' ' := by
  have hconsumed : before ++ (run ++ [c]) <+: text := by
    refine ⟨pastCloser after, ?_⟩
    rw [← hcloser, List.append_assoc, List.append_assoc, closer_append_pastCloser]
    exact h.field.split.symm
  have hsame : before ++ (run ++ [c]) = before' :=
    (List.prefix_of_prefix_length_le hconsumed hfield.isPrefix hlength.le).eq_of_length hlength
  refine ⟨hsame.symm, ?_⟩
  -- what may close a run and what may open one have only the space in common
  have hcloses : c = ' ' ∨ c = ')' := by
    rcases h.field.commit.closer_cases with ⟨hnil, -⟩ | ⟨d, hd, hcases⟩
    · simp [hnil] at hcloser
    · obtain rfl : d = c := by simpa [hd] using hcloser
      exact hcases
  rw [← List.append_assoc] at hsame
  obtain rfl | ⟨front, d, rfl, hopens⟩ := hfield.opens
  · simp at hsame
  · obtain rfl : c = d := by simpa using (List.append_inj' hsame rfl).2
    rcases hcloses with rfl | rfl
    · rfl
    · rcases hopens with hd | hd <;> cases hd

/-- Of the taken fields that were still to come, the others begin behind the match. -/
theorem ahead_cases (h : MatchedAt text done before run after) (hsettled : Settled text done)
    {before' run' after' : List Char} (hfield : CommitField text before' run' after')
    (htaken : Taken text before') (hahead : Ahead done before') :
    before' = before ∨ Ahead (before ++ (run ++ closer after)) before' := by
  have hmatched := h.ahead
  have hnear := h.near
  have hlong := hfield.commit.long
  rcases lt_trichotomy before'.length before.length with hlt | heq | hgt
  · have hdisjoint := hfield.disjoint h.field hlt
    simp only [Ahead, List.length_append] at hmatched hahead hdisjoint
    omega
  · exact Or.inl (hfield.eq_of_length h.field heq)
  · refine Or.inr (Or.inl ?_)
    have hdisjoint := h.field.disjoint hfield hgt
    rcases h.field.commit.closer_cases with ⟨hnil, -⟩ | ⟨c, hcloser, -⟩
    · rwa [hnil, List.append_nil]
    · rw [hcloser]
      refine lt_of_le_of_ne (by simp at hdisjoint ⊢; omega) fun hlength => ?_
      -- the next field opens with the consumed closing character, and is not taken
      obtain ⟨rfl, rfl⟩ := h.closer_eq_space hcloser hfield hlength
      have hafter : [' '] ++ pastCloser after = after := hcloser ▸ closer_append_pastCloser after
      obtain ⟨n, hplace, heven⟩ := h.taken hsettled
      exact not_taken_next (hafter.symm ▸ h.field) hplace heven htaken

end MatchedAt

/-- A match that was passed is settled, and so is what was settled before. -/
theorem Settled.pass {text done before run after : List Char} (hsettled : Settled text done)
    (h : MatchedAt text done before run after) :
    Settled text (before ++ (run ++ closer after)) := by
  intro before' run' rest hfield htaken hpassed
  have hahead := h.ahead
  have hnear := h.near
  have hlong := h.field.commit.long
  by_cases hstill : Ahead done before'
  · obtain rfl := (h.ahead_cases hsettled hfield htaken hstill).resolve_right hpassed
    obtain ⟨rfl, rfl⟩ := hfield.unique h.field
    rcases hfield.commit.closer_cases with ⟨-, hother⟩ | ⟨c, hcloser, -⟩
    · exact absurd rfl (hother rest)
    · simp [hcloser]
  · have hbehind := hsettled before' run' rest hfield htaken hstill
    simp only [Ahead, List.length_append] at hahead hbehind ⊢
    omega

/-- Where no match begins, one character is passed. -/
theorem Settled.skip {done text : List Char} {c : Char}
    (hsettled : Settled (done ++ c :: text) done)
    (h : matchHere (decide (done = [])) (c :: text) = none) :
    Settled (done ++ c :: text) (done ++ [c]) := by
  intro before run rest hfield htaken hpassed
  have hstill : ¬ Ahead done before := fun hahead =>
    hpassed (Or.inl (by simpa using matchHere_none h hfield hahead))
  have hbehind := hsettled before run rest hfield htaken hstill
  simp only [List.length_append, List.length_singleton] at hbehind ⊢
  omega

/-- What the rest of a scan finds last: the rightmost taken field, if one is still to
come. -/
inductive ScanOutcome (text done : List Char) : Option (List Char) → Prop
  | nothing (h : ∀ before run after, CommitField text before run after → Taken text before →
      ¬ Ahead done before) : ScanOutcome text done none
  | found {before run : List Char} (h : LastField text (Taken text) before run)
      (hahead : Ahead done before) : ScanOutcome text done (some run)

namespace ScanOutcome

theorem skip {done text : List Char} {c : Char} {last : Option (List Char)}
    (h : ScanOutcome (done ++ c :: text) (done ++ [c]) last)
    (hnone : matchHere (decide (done = [])) (c :: text) = none) :
    ScanOutcome (done ++ c :: text) done last := by
  cases h with
  | nothing h =>
    refine .nothing fun before run after hfield htaken hahead => h before run after hfield htaken ?_
    exact Or.inl (by simpa using matchHere_none hnone hfield hahead)
  | found h hahead =>
    refine .found h (Or.inl ?_)
    simp only [Ahead, List.length_append, List.length_singleton] at hahead
    omega

theorem pass {text done before run after : List Char} {last : Option (List Char)}
    (hsettled : Settled text done) (hmatch : MatchedAt text done before run after)
    (h : ScanOutcome text (before ++ (run ++ closer after)) last) :
    ScanOutcome text done (some (last.getD run)) := by
  have hmatched := hmatch.ahead
  cases h with
  | nothing h =>
    refine .found ⟨⟨after, hmatch.field⟩, hmatch.taken hsettled, ?_⟩ hmatched
    intro before' run' after' hfield htaken
    by_cases hahead : Ahead done before'
    · have hnot := h before' run' after' hfield htaken
      rw [(hmatch.ahead_cases hsettled hfield htaken hahead).resolve_right hnot]
    · simp only [Ahead] at hahead hmatched
      omega
  | found h hahead =>
    have hlong := hmatch.field.commit.long
    refine .found h ?_
    simp only [Ahead, List.length_append] at hahead hmatched ⊢
    omega

end ScanOutcome

/-- The scan from any point of the text: each step is a match or passes one character. -/
theorem findCommits_outcome {fuel : ℕ} {done text : List Char} (hfuel : text.length < fuel)
    (hsettled : Settled (done ++ text) done) :
    ScanOutcome (done ++ text) done (findCommits fuel (decide (done = [])) text).getLast? := by
  induction fuel generalizing done text with
  | zero => omega
  | succ fuel ih =>
    unfold findCommits
    split
    · rename_i run rest hmatch
      obtain ⟨before, after, hmatched, rfl⟩ := matchHere_some hmatch
      have hsplit : done ++ text = before ++ (run ++ closer after) ++ pastCloser after := by
        rw [List.append_assoc, List.append_assoc, closer_append_pastCloser]
        exact hmatched.field.split
      have hlength := congrArg List.length hsplit
      have hlong := hmatched.field.commit.long
      have hahead := hmatched.ahead
      have hpassed := hsettled.pass hmatched
      have hnonempty : before ++ (run ++ closer after) ≠ [] := by
        intro hnil
        simp [List.append_eq_nil_iff] at hnil
        simp [hnil.2.1] at hlong
      have hshorter : (pastCloser after).length < fuel := by
        simp only [Ahead, List.length_append] at hlength hahead
        omega
      have hrest := ih hshorter (hsplit ▸ hpassed)
      rw [← hsplit, decide_eq_false hnonempty] at hrest
      rw [List.getLast?_cons]
      exact .pass hsettled hmatched hrest
    · rename_i hnone
      cases text with
      | nil =>
        refine .nothing fun before run after hfield _ hahead => ?_
        have hlength := congrArg List.length hfield.split
        have hlong := hfield.commit.long
        simp only [Ahead, List.length_append, List.length_nil] at hlength hahead
        omega
      | cons c rest =>
        have hskipped : Settled (done ++ [c] ++ rest) (done ++ [c]) := by
          simpa using hsettled.skip hnone
        have hrest := ih (Nat.lt_of_succ_lt_succ hfuel) hskipped
        rw [decide_eq_false (by simp)] at hrest
        exact .skip (by simpa using hrest) hnone

/-! ## The gate -/

theorem sourceCommit_outcome (buildInfo : String) :
    ∃ last, ScanOutcome (lowered buildInfo) [] last ∧
      sourceCommit buildInfo = last.map String.ofList := by
  refine ⟨_, @findCommits_outcome _ [] (lowered buildInfo) (Nat.lt_succ_self _) ?_, rfl⟩
  exact fun before _ _ _ _ hpassed => absurd (ahead_nil before) hpassed

namespace LastField

variable {text before run before' run' : List Char} {P : List Char → Prop}

theorem unique (h : LastField text P before run) (h' : LastField text P before' run') :
    before = before' ∧ run = run' := by
  obtain ⟨after, hfield⟩ := h.field
  obtain ⟨after', hfield'⟩ := h'.field
  have hle := h.last before' run' after' hfield' h'.holds
  have hge := h'.last before run after hfield h.holds
  obtain rfl := hfield.eq_of_length hfield' (le_antisymm hge hle)
  exact ⟨rfl, (hfield.unique hfield').1⟩

theorem exists_last {after : List Char} (h : CommitField text before run after) :
    ∃ before run, LastField text (fun _ => True) before run := by
  induction hgap : text.length - before.length using Nat.strong_induction_on
    generalizing before run after with
  | _ gap ih =>
    by_cases hlast : ∀ before' run' after', CommitField text before' run' after' →
        before'.length ≤ before.length
    · exact ⟨before, run, ⟨after, h⟩, trivial, fun b r a hfield _ => hlast b r a hfield⟩
    · push Not at hlast
      obtain ⟨before', run', after', hfield, hlt⟩ := hlast
      have hle := hfield.isPrefix.length_le
      exact ih (text.length - before'.length) (by omega) hfield rfl

/-- The last taken field is the last field, or the last field stands one space behind it. -/
theorem taken_cases (htaken : LastField text (Taken text) before run)
    (hlast : LastField text (fun _ => True) before' run') :
    before = before' ∧ run = run' ∨ ∃ rest n, before' = before ++ (run ++ [' ']) ∧
      CommitField text before run (' ' :: rest) ∧ Place text before n ∧ Even n := by
  obtain ⟨after, hfield⟩ := htaken.field
  obtain ⟨after', hfield'⟩ := hlast.field
  rcases taken_or_next text before' with hplace | ⟨pred, run₁, rest, m, rfl, hpred, hplace, heven⟩
  · have hlast' : LastField text (Taken text) before' run' :=
      ⟨hlast.field, hplace, fun b r a hb _ => hlast.last b r a hb trivial⟩
    exact Or.inl (htaken.unique hlast')
  · have hle := htaken.last pred run₁ _ hpred ⟨m, hplace, heven⟩
    have hsame : pred.length = before.length := by
      by_contra hne
      have hdisjoint := hpred.disjoint hfield (by omega)
      have hright := hlast.last before run after hfield trivial
      have hboth : before = pred ++ (run₁ ++ [' ']) := by
        refine hfield.eq_of_length hfield' (le_antisymm hright ?_)
        simp only [List.length_append, List.length_singleton] at hdisjoint ⊢
        omega
      exact not_taken_next hpred hplace heven (hboth ▸ htaken.holds)
    obtain rfl := hpred.eq_of_length hfield hsame
    obtain ⟨rfl, rfl⟩ := hpred.unique hfield
    exact Or.inr ⟨rest, m, rfl, hpred, hplace, heven⟩

end LastField

theorem LastRun.unique {text run run' : List Char} (h : LastRun text run)
    (h' : LastRun text run') : run = run' := by
  obtain ⟨before, h⟩ := h
  obtain ⟨before', h'⟩ := h'
  exact (h.unique h').2

/-- A text with a field has a taken one. -/
theorem exists_taken {text before run after : List Char}
    (h : CommitField text before run after) :
    ∃ before run after, CommitField text before run after ∧ Taken text before := by
  rcases taken_or_next text before with htaken | ⟨pred, run₁, rest, m, -, hpred, hplace⟩
  · exact ⟨before, run, after, h, htaken⟩
  · exact ⟨pred, run₁, _, hpred, m, hplace⟩

/-- Unless the last field is overlooked, the scan reads it. -/
theorem sourceCommit_last {buildInfo : String} (h : ¬ Overlooked (lowered buildInfo)) :
    (∃ run, sourceCommit buildInfo = some (String.ofList run) ∧
        LastRun (lowered buildInfo) run) ∨
      sourceCommit buildInfo = none ∧ ∀ run, ¬ LastRun (lowered buildInfo) run := by
  obtain ⟨last, houtcome, hsource⟩ := sourceCommit_outcome buildInfo
  rw [hsource]
  cases houtcome with
  | nothing hnone =>
    refine Or.inr ⟨rfl, fun run ⟨before, hlast⟩ => ?_⟩
    obtain ⟨after, hfield⟩ := hlast.field
    obtain ⟨before', run', after', hfield', htaken⟩ := exists_taken hfield
    exact hnone before' run' after' hfield' htaken (ahead_nil before')
  | @found before taken htaken hahead =>
    obtain ⟨after, hfield⟩ := htaken.field
    obtain ⟨before', run, hlast⟩ := LastField.exists_last hfield
    refine Or.inl ⟨taken, rfl, before', ?_⟩
    have hrun : taken = run := by
      rcases htaken.taken_cases hlast with ⟨-, hrun⟩ | ⟨rest, n, rfl, hpred, hplace, heven⟩
      · exact hrun
      · by_contra hne
        exact h ⟨before, taken, rest, run, n, hpred, hplace, heven, hlast, hne⟩
    exact hrun ▸ hlast

/-- A gate of forty characters compares the commit with its beginning. -/
theorem gate_iff {buildInfo : String} (reference : String)
    (hlength : reference.toList.length = 40)
    (hcommit : ∀ commit, sourceCommit buildInfo = some commit ↔
      LastRun (lowered buildInfo) commit.toList) :
    (sourceCommit buildInfo).any (prefixOrExtension reference) = true ↔
      ∃ run, LastRun (lowered buildInfo) run ∧ run <+: reference.toList := by
  rw [Option.any_eq_true]
  constructor
  · rintro ⟨commit, hsource, hbegins⟩
    refine ⟨commit.toList, (hcommit commit).mp hsource, ?_⟩
    obtain ⟨before, hlast⟩ := (hcommit commit).mp hsource
    obtain ⟨after, hfield⟩ := hlast.field
    have hshort := hfield.commit.short
    simp only [prefixOrExtension, Bool.or_eq_true, List.isPrefixOf_iff_prefix] at hbegins
    rcases hbegins with hbegins | hbegins
    · exact hbegins
    · rw [hbegins.eq_of_length (le_antisymm hbegins.length_le (by omega))]
  · rintro ⟨run, hlast, hbegins⟩
    refine ⟨String.ofList run, (hcommit _).mpr (by simpa using hlast), ?_⟩
    simp [prefixOrExtension, hbegins]

/-- The gate reads the last commit field of a build exactly when no such field is
overlooked. -/
theorem readsLastField_iff (buildInfo : String) :
    ReadsLastField buildInfo ↔ ¬ Overlooked (lowered buildInfo) := by
  constructor
  · rintro hreads ⟨before, taken, rest, run, n, hpred, hplace, heven, hlast, hne⟩
    have hsource : sourceCommit buildInfo = some (String.ofList run) :=
      (hreads.commit _).mpr ⟨_, by simpa using hlast⟩
    obtain ⟨last, houtcome, heq⟩ := sourceCommit_outcome buildInfo
    rw [hsource] at heq
    cases houtcome with
    | nothing => cases heq
    | @found before' taken' htaken hahead =>
      obtain rfl : run = taken' := String.ofList_injective (Option.some.inj heq)
      rcases htaken.taken_cases hlast with ⟨rfl, -⟩ | ⟨rest', m, hends, hfield, -, -⟩
      · exact not_taken_next hpred hplace heven htaken.holds
      · rw [← List.append_assoc, ← List.append_assoc] at hends
        obtain rfl := hpred.eq_of_end hfield (List.append_inj_left' hends rfl)
        exact hne (hpred.unique hfield).1
  · intro h
    have hcommit : ∀ commit, sourceCommit buildInfo = some commit ↔
        LastRun (lowered buildInfo) commit.toList := by
      intro commit
      rcases sourceCommit_last h with ⟨run, hsource, hlast⟩ | ⟨hsource, hnone⟩
      · rw [hsource, Option.some.injEq]
        constructor
        · rintro rfl
          simpa using hlast
        · intro hother
          rw [hlast.unique hother, String.ofList_toList]
      · rw [hsource]
        exact ⟨nofun, fun hlast => absurd hlast (hnone _)⟩
    exact ⟨hcommit, gate_iff referenceSha (by decide) hcommit,
      gate_iff managedReferenceSha (by decide) hcommit⟩

/-- A gate opens although the last field names another commit. -/
theorem second_commit_overlooked :
    referenceSourceMatch "b1-465e49b9c 1234567" = true ∧
      LastRun (lowered "b1-465e49b9c 1234567") "1234567".toList ∧
      ¬ ReadsLastField "b1-465e49b9c 1234567" := by
  have hcommit : IsCommit "1234567".toList [] :=
    ⟨List.all_eq_true.mp (by decide), by decide, by decide, Or.inl rfl⟩
  have hlast : LastRun (lowered "b1-465e49b9c 1234567") "1234567".toList := by
    refine ⟨"b1-465e49b9c ".toList, ⟨[], by decide, Or.inr ?_, hcommit⟩, trivial,
      fun before run after hfield _ => ?_⟩
    · exact ⟨"b1-465e49b9c".toList, ' ', by decide, Or.inr rfl⟩
    · -- a field further right would be shorter than a commit
      have hlength := congrArg List.length hfield.split
      have hlong := hfield.commit.long
      have htext : (lowered "b1-465e49b9c 1234567").length = 20 := by decide
      have hbefore : "b1-465e49b9c ".toList.length = 13 := by decide
      rw [List.length_append, List.length_append] at hlength
      omega
  refine ⟨by decide, hlast, fun hreads => ?_⟩
  have hfirst := (hreads.commit "465e49b9c").mp (by decide)
  exact absurd (hlast.unique hfirst) (by decide)

end StateBraid.LlamaCpp
