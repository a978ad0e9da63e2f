import StateBraid.Mlx.Requests

/-!
# What a request saves

Over caches that cannot be trimmed the server keeps one stable prefix and one
generation-safe tail of a prompt. Here that is a property of every run of the batch loop:
which insertions are tried for a row, at the end of which segments, and under which tokens.
A call that raises is a try too: the next segment of a cold prompt then gets its turn.
-/
namespace StateBraid.Mlx
open Library Policy Coordinator Managed

variable {K σ π τ α : Type}

/-- The save of a segment under its own type, at a prefix of the prompt. The system prefix is a
candidate for the stable lane. -/
def Row.IsSave (row : Row K π) (cacheType : Role) : Insertion (CacheNamespace K) π → Prop
  | .stable model tokens _ =>
    cacheType = "system" ∧ model = row.cacheNamespace ∧ tokens <+: row.prompt
  | .cache model tokens _ role => cacheType ≠ "system" ∧ role = cacheType ∧
    model = row.cacheNamespace ∧ tokens <+: row.prompt
  | .active .. => False

/-- The save of the generation-safe tail, which succeeds the prefix the prompt was served. -/
def Row.IsTail (row : Row K π) : Insertion (CacheNamespace K) π → Prop
  | .active model tokens _ predecessorTokens =>
    model = row.cacheNamespace ∧ tokens = row.prompt.dropLast ∧
      predecessorTokens = row.prompt.take row.promptCacheCount
  | _ => False

/-- The segments of a cold prompt are saved in turn, the first one first, until one save returns:
`failed` are the tries before it, and `returned` is that one. `segment_cache_saved` says whether
there is one. -/
structure Row.SavesInTurn (row : Row K π) (failed : List (Attempt K π))
    (returned : Option (Attempt K π)) : Prop where
  cold : failed ++ returned.toList ≠ [] → row.promptCacheCount = 0
  inTurn : ∀ (i : ℕ) (attempt : Attempt K π), (failed ++ returned.toList)[i]? = some attempt →
    attempt.segment = i ∧ ∃ cacheType, row.endedTypes[i]? = some cacheType ∧
      row.IsSave cacheType attempt.insertion
  raised : ∀ attempt ∈ failed, ∃ e, attempt.result = .error e
  isReturned : ∀ attempt ∈ returned, ∃ saved, attempt.result = .ok saved
  saved_eq : row.segmentCacheSaved = returned.isSome
  everySegment : row.promptCacheCount = 0 → returned = none →
    failed.length = row.endedTypes.length

/-- The tail is tried at the end of the last segment. On a cold prompt a save has returned by
then, and if it was the save of that same segment, it was of a candidate that was refused. -/
structure Row.TailAfter (row : Row K π) (returned : Option (Attempt K π))
    (tail : Attempt K π) : Prop where
  finished : row.segmentTypes = []
  last : tail.segment + 1 = row.endedTypes.length
  isTail : row.IsTail tail.insertion
  unsaved : row.promptCacheCount = 0 → ∃ attempt ∈ returned,
    attempt.segment = tail.segment → attempt.result = .ok false

/-- Saves in turn, then one tail at most. -/
def Row.SavesThenTail (row : Row K π) : Prop :=
  ∃ (failed : List (Attempt K π)) (returned tail : Option (Attempt K π)),
    row.attempts = failed ++ returned.toList ++ tail.toList ∧ row.SavesInTurn failed returned ∧
      ∀ attempt ∈ tail, row.TailAfter returned attempt

/-- Saves in turn, and no tail yet. When the loop has not saved now, the segment that has just
ended was not saved. -/
def Row.AwaitsTail (row : Row K π) (savedNow : Bool) : Prop :=
  ∃ (failed : List (Attempt K π)) (returned : Option (Attempt K π)),
    row.attempts = failed ++ returned.toList ∧ row.SavesInTurn failed returned ∧
      (savedNow = false → row.promptCacheCount = 0 → ∃ attempt ∈ returned,
        attempt.segment + 1 = row.endedTypes.length → attempt.result = .ok false)

/-- Rows of one request at one stage: only the flag and the tries may differ. -/
structure Row.SameStage (row now : Row K π) : Prop where
  cacheNamespace : now.cacheNamespace = row.cacheNamespace
  prompt : now.prompt = row.prompt
  promptCacheCount : now.promptCacheCount = row.promptCacheCount
  segmentTypes : now.segmentTypes = row.segmentTypes
  endedTypes : now.endedTypes = row.endedTypes

/-! ## One try -/

section Tries

variable {row : Row K π} {failed : List (Attempt K π)} {returned : Option (Attempt K π)}
  {cacheType : Role} {segmentTypes : List Role}

theorem Row.SavesInTurn.start {cacheNamespace : CacheNamespace K} {prompt : List ℤ}
    {promptCacheCount : ℕ} :
    (⟨cacheNamespace, prompt, promptCacheCount, segmentTypes, false, [], []⟩ :
      Row K π).SavesInTurn [] none where
  cold hne := absurd rfl hne
  inTurn _ _ hnone := by cases hnone
  raised _ hnone := by cases hnone
  isReturned _ hnone := by cases hnone
  saved_eq := rfl
  everySegment _ _ := rfl

/-- Before the save of the segment that has just ended: one try for each earlier segment. -/
theorem Row.SavesInTurn.all_failed (h : row.SavesInTurn failed returned)
    (hcold : row.promptCacheCount = 0) (hunsaved : row.segmentCacheSaved = false) :
    returned = none ∧ failed.length = row.endedTypes.length := by
  have hnone : returned = none := by
    rw [h.saved_eq] at hunsaved
    exact Option.isSome_eq_false_iff.mp hunsaved |> Option.isNone_iff_eq_none.mp
  exact ⟨hnone, h.everySegment hcold hnone⟩

/-- The next try is for the segment after those tried before. -/
theorem Row.SavesInTurn.next (h : row.SavesInTurn failed none)
    (hlength : failed.length = row.endedTypes.length)
    {insertion : Insertion (CacheNamespace K) π} (hsave : row.IsSave cacheType insertion)
    (result : Except PyError Bool) (i : ℕ) (attempt : Attempt K π)
    (hattempt : (failed ++ [(⟨row.endedTypes.length, insertion, result⟩ : Attempt K π)])[i]? =
      some attempt) :
    attempt.segment = i ∧ ∃ t, (row.endedTypes ++ [cacheType])[i]? = some t ∧
      row.IsSave t attempt.insertion := by
  rcases lt_trichotomy i failed.length with hlt | rfl | hgt
  · rw [List.getElem?_append_left hlt] at hattempt
    obtain ⟨hsegment, t, ht, htype⟩ := h.inTurn i attempt (by simpa using hattempt)
    exact ⟨hsegment, t, by rw [List.getElem?_append_left (hlength ▸ hlt), ht], htype⟩
  · rw [List.getElem?_concat_length] at hattempt
    cases hattempt
    exact ⟨hlength.symm, cacheType, by rw [hlength, List.getElem?_concat_length], hsave⟩
  · have hnone : (failed ++ [(⟨row.endedTypes.length, insertion, result⟩ : Attempt K π)])[i]? =
        none := List.getElem?_eq_none (by simp; omega)
    rw [hnone] at hattempt
    cases hattempt

/-- A save that raises is one more failed try. -/
theorem Row.SavesInTurn.fail (h : row.SavesInTurn failed none) (hcold : row.promptCacheCount = 0)
    (hlength : failed.length = row.endedTypes.length)
    {insertion : Insertion (CacheNamespace K) π} (hsave : row.IsSave cacheType insertion)
    (e : PyError) : ((row.popSegment cacheType segmentTypes).note insertion (.error e)).SavesInTurn
      (failed ++ [⟨row.endedTypes.length, insertion, .error e⟩]) none where
  cold _ := hcold
  inTurn i attempt hattempt := h.next hlength hsave (.error e) i attempt (by simpa using hattempt)
  raised attempt hattempt := by
    rcases List.mem_append.mp hattempt with hmem | hmem
    · exact h.raised attempt hmem
    · rw [List.mem_singleton.mp hmem]
      exact ⟨e, rfl⟩
  isReturned _ hnone := by cases hnone
  saved_eq := h.saved_eq
  everySegment _ _ := by simp [Row.note, Row.popSegment, hlength]

/-- A save that returns is the last one. -/
theorem Row.SavesInTurn.return (h : row.SavesInTurn failed none) (hcold : row.promptCacheCount = 0)
    (hlength : failed.length = row.endedTypes.length)
    {insertion : Insertion (CacheNamespace K) π} (hsave : row.IsSave cacheType insertion)
    (saved : Bool) :
    { (row.popSegment cacheType segmentTypes).note insertion (.ok saved) with
      segmentCacheSaved := true }.SavesInTurn failed
        (some ⟨row.endedTypes.length, insertion, .ok saved⟩) where
  cold _ := hcold
  inTurn i attempt hattempt := h.next hlength hsave (.ok saved) i attempt hattempt
  raised := h.raised
  isReturned attempt hattempt := by
    cases hattempt
    exact ⟨saved, rfl⟩
  saved_eq := rfl
  everySegment _ hnone := by cases hnone

/-- A segment whose save is not tried: the prompt is warm, or a save has returned. -/
theorem Row.SavesInTurn.pass (h : row.SavesInTurn failed returned)
    (hpass : ¬ (row.promptCacheCount = 0 ∧ row.segmentCacheSaved = false)) :
    (row.popSegment cacheType segmentTypes).SavesInTurn failed returned where
  cold := h.cold
  inTurn i attempt hattempt := by
    obtain ⟨hsegment, t, ht, htype⟩ := h.inTurn i attempt hattempt
    have hlt : i < row.endedTypes.length := (List.getElem?_eq_some_iff.mp ht).1
    exact ⟨hsegment, t, (List.getElem?_append_left hlt).trans ht, htype⟩
  raised := h.raised
  isReturned := h.isReturned
  saved_eq := h.saved_eq
  everySegment hcold hnone := absurd ⟨hcold, h.saved_eq.trans (by rw [hnone]; rfl)⟩ hpass

/-- A save that has returned before was not the one of the segment that has just ended. -/
theorem Row.SavesInTurn.earlier (h : row.SavesInTurn failed returned)
    (hpass : ¬ (row.promptCacheCount = 0 ∧ row.segmentCacheSaved = false))
    (hcold : row.promptCacheCount = 0) : ∃ attempt ∈ returned,
      attempt.segment + 1 = (row.popSegment cacheType segmentTypes).endedTypes.length →
        attempt.result = .ok false := by
  cases returned with
  | none => exact absurd ⟨hcold, h.saved_eq⟩ hpass
  | some attempt =>
    refine ⟨attempt, rfl, fun hlast => ?_⟩
    obtain ⟨hsegment, t, ht, -⟩ := h.inTurn failed.length attempt (by simp)
    have hlt : failed.length < row.endedTypes.length := (List.getElem?_eq_some_iff.mp ht).1
    simp only [Row.popSegment, List.length_append, List.length_singleton] at hlast
    omega

theorem Row.AwaitsTail.done {savedNow : Bool} (h : row.AwaitsTail savedNow) :
    row.SavesThenTail := by
  obtain ⟨failed, returned, hattempts, hsaves, -⟩ := h
  exact ⟨failed, returned, none, by simpa using hattempts, hsaves, fun _ hnone => by cases hnone⟩

theorem Row.AwaitsTail.tail (h : row.AwaitsTail false) (hfinished : row.segmentTypes = [])
    (hended : row.endedTypes ≠ []) {insertion : Insertion (CacheNamespace K) π}
    (htail : row.IsTail insertion) (result : Except PyError Bool) :
    (row.note insertion result).SavesThenTail := by
  obtain ⟨failed, returned, hattempts, hsaves, hunsaved⟩ := h
  have hlast : row.endedTypes.length - 1 + 1 = row.endedTypes.length :=
    Nat.sub_add_cancel (List.length_pos_iff.mpr hended)
  refine ⟨failed, returned, some ⟨row.endedTypes.length - 1, insertion, result⟩,
    by simp [Row.note, hattempts], ⟨hsaves.1, hsaves.2, hsaves.3, hsaves.4, hsaves.5, hsaves.6⟩, ?_⟩
  rintro _ ⟨⟩
  refine ⟨hfinished, hlast, htail, fun hcold => ?_⟩
  obtain ⟨attempt, hattempt, hrefused⟩ := hunsaved rfl hcold
  exact ⟨attempt, hattempt, fun hsame => hrefused (hsame ▸ hlast)⟩

/-- What is known of a row between the two halves of the loop's body. -/
def Between (row : Row K π) (savedNow : Bool) (now : Row K π) : Prop :=
  now.AwaitsTail savedNow ∧ row.SameStage now

/-- After an exception the row has saved in turn, without a tail. -/
def Interrupted (now : Row K π) : Prop := ∃ savedNow, now.AwaitsTail savedNow

/-- The row after the insertion at the end of its next segment has returned. -/
def Noted (row : Row K π) (cacheType : Role) (segmentTypes : List Role)
    (insertion : Insertion (CacheNamespace K) π) (saved : Bool) (now : Row K π) : Prop :=
  now = (row.popSegment cacheType segmentTypes).note insertion (.ok saved)

/-- Once a save has returned the flag is set. A candidate that was refused leaves its segment
unsaved. -/
theorem Noted.between (hsaves : row.SavesInTurn row.attempts none)
    (hcold : row.promptCacheCount = 0) (hlength : row.attempts.length = row.endedTypes.length)
    {insertion : Insertion (CacheNamespace K) π} (hsave : row.IsSave cacheType insertion)
    {saved savedNow : Bool} (hnow : savedNow = false → saved = false) {now : Row K π}
    (hnoted : Noted row cacheType segmentTypes insertion saved now) :
    Between (row.popSegment cacheType segmentTypes) savedNow
      { now with segmentCacheSaved := true } := by
  cases hnoted
  refine ⟨⟨row.attempts, _, ?_, hsaves.return hcold hlength hsave saved, fun hfalse _ =>
    ⟨_, rfl, fun _ => congrArg Except.ok (hnow hfalse)⟩⟩, rfl, rfl, rfl, rfl, rfl⟩
  simp [Row.note, Row.popSegment]

end Tries

/-! ## Following one row -/

section Rows

variable {uid : ℕ} {others : ℕ → Option (Row K π)} {Q E : Row K π → Prop}

/-- The row of `uid` satisfies `Q`; the other rows are `others`. -/
def HasRow (uid : ℕ) (others : ℕ → Option (Row K π)) (Q : Row K π → Prop)
    (g : ResponseGenerator K σ π) : Prop :=
  ∃ row, Q row ∧ g.batchResults.get? uid = some row ∧
    ∀ u, u ≠ uid → g.batchResults.get? u = others u

theorem HasRow.mono {g : ResponseGenerator K σ π} (hQE : ∀ row, Q row → E row)
    (h : HasRow uid others Q g) : HasRow uid others E g := by
  obtain ⟨row, hQ, hrow⟩ := h
  exact ⟨row, hQE row hQ, hrow⟩

theorem hasRow_modifyRow (f : Row K π → Row K π) :
    Exec.Triple (HasRow (σ := σ) uid others fun row => Q (f row)) (modifyRow uid f)
      (fun _ => HasRow uid others Q) (fun _ => HasRow uid others E) := by
  rintro g ⟨row, hQ, hrow, hothers⟩
  refine ⟨f row, hQ, ?_, fun u hu => ?_⟩
  · simp [hrow]
  · simp [hrow, hu, hothers u hu]

/-- Every row under way has saved in turn and tried one tail at most. -/
def AllDisciplined (g : ResponseGenerator K σ π) : Prop :=
  ∀ uid row, g.batchResults.get? uid = some row → row.SavesThenTail

theorem disciplined_onPromptCache (m : Exec PyError (CacheCoordinator (CacheNamespace K) σ) α) :
    Exec.Keeps AllDisciplined (onPromptCache m : Exec PyError (ResponseGenerator K σ π) α) := by
  refine Exec.Triple.zoom fun g hg => ?_
  rcases m g.promptCache with ⟨⟨e⟩ | ⟨a⟩, c⟩ <;> exact hg

theorem HasRow.disciplined {g g' : ResponseGenerator K σ π} (hg : AllDisciplined g)
    (h : HasRow uid g.batchResults.get? Row.SavesThenTail g') : AllDisciplined g' := by
  obtain ⟨row, hrow, hfound, hothers⟩ := h
  intro u row' hrow'
  by_cases hu : u = uid
  · subst hu
    rw [hfound] at hrow'
    cases hrow'
    exact hrow
  · rw [hothers u hu] at hrow'
    exact hg u row' hrow'

end Rows

section Discipline

variable [DecidableEq K] {R : Runtime (CacheNamespace K) σ π τ}
variable {uid : ℕ} {others : ℕ → Option (Row K π)} {row : Row K π} {cache : π}
  {cacheKey : List ℤ} {cacheType : Role} {segmentTypes : List Role}

/-- An insertion is noted with its outcome. -/
theorem hasRow_insertFor (insertion : Insertion (CacheNamespace K) π) {Q : Bool → Row K π → Prop}
    {E : Row K π → Prop} :
    Exec.Triple (HasRow uid others fun now =>
        (∀ saved, Q saved (now.note insertion (.ok saved))) ∧
          ∀ e, E (now.note insertion (.error e)))
      (insertFor R uid insertion) (fun saved => HasRow uid others (Q saved))
      (fun _ => HasRow uid others E) := by
  refine Exec.Triple.bind (S := fun saved => HasRow uid others fun now =>
    Q saved (now.note insertion (.ok saved))) ?_ fun saved => ?_
  · refine Exec.Triple.tryExcept (E := fun e => HasRow uid others fun now =>
      E (now.note insertion (.error e))) ?_ fun e => ?_
    · refine Exec.Triple.zoom fun g hg => ?_
      rcases insertion.perform R g.promptCache with ⟨⟨e⟩ | ⟨saved⟩, c⟩
      · exact HasRow.mono (fun _ hnow => hnow.2 e) hg
      · exact HasRow.mono (fun _ hnow => hnow.1 saved) hg
    · exact Exec.Triple.bind (S := fun _ => HasRow uid others E) (hasRow_modifyRow _)
        fun _ => Exec.Triple.fail e
  · refine Exec.Triple.bind (S := fun _ => HasRow uid others (Q saved)) ?_
      fun _ _ hg => hg
    exact hasRow_modifyRow _

/-- The save of the segment that has just ended: it raises, or it is noted. -/
theorem hasRow_trySave (hsaves : row.SavesInTurn row.attempts none)
    (hcold : row.promptCacheCount = 0) (hlength : row.attempts.length = row.endedTypes.length)
    {insertion : Insertion (CacheNamespace K) π} (hsave : row.IsSave cacheType insertion) :
    Exec.Triple (HasRow uid others fun now => now = row.popSegment cacheType segmentTypes)
      (insertFor R uid insertion)
      (fun saved => HasRow uid others (Noted row cacheType segmentTypes insertion saved))
      (fun _ => HasRow uid others Interrupted) := by
  refine (hasRow_insertFor insertion).pre ?_
  rintro g ⟨now, rfl, hrow⟩
  refine ⟨_, ⟨fun _ => rfl, fun e => ⟨true, _, none, ?_, hsaves.fail hcold hlength hsave e,
    fun hfalse => by cases hfalse⟩⟩, hrow⟩
  simp [Row.note, Row.popSegment]

/-- The first half, for a cold prompt none of whose segments is saved. -/
theorem hasRow_saveFirst (hkey : cacheKey <+: row.prompt)
    (hsaves : row.SavesInTurn row.attempts none) (hcold : row.promptCacheCount = 0)
    (hlength : row.attempts.length = row.endedTypes.length) :
    Exec.Triple (HasRow uid others fun now => now = row.popSegment cacheType segmentTypes)
      (saveFirst R uid row cache cacheKey cacheType)
      (fun savedNow => HasRow uid others fun now =>
        Between (row.popSegment cacheType segmentTypes) savedNow
          { now with segmentCacheSaved := true })
      (fun _ => HasRow uid others Interrupted) := by
  unfold saveFirst
  split
  · rename_i hsystem
    have hsave : row.IsSave cacheType (.stable row.cacheNamespace cacheKey cache) :=
      ⟨hsystem, rfl, hkey⟩
    exact (hasRow_trySave hsaves hcold hlength hsave).weaken (fun _ hg => hg)
      (fun _ _ hg => hg.mono fun _ hnoted =>
        hnoted.between hsaves hcold hlength hsave id) (fun _ _ hg => hg)
  · rename_i hsystem
    have hsave : row.IsSave cacheType (.cache row.cacheNamespace cacheKey cache cacheType) :=
      ⟨hsystem, rfl, rfl, hkey⟩
    refine (hasRow_trySave hsaves hcold hlength hsave).bind fun saved g hg => ?_
    exact hg.mono fun _ hnoted =>
      hnoted.between hsaves hcold hlength hsave fun hfalse => by cases hfalse

theorem hasRow_saveCold (hkey : cacheKey <+: row.prompt) {failed : List (Attempt K π)}
    {returned : Option (Attempt K π)} (hattempts : row.attempts = failed ++ returned.toList)
    (hsaves : row.SavesInTurn failed returned) :
    Exec.Triple (HasRow uid others fun now => now = row.popSegment cacheType segmentTypes)
      (saveCold R uid row cache cacheKey cacheType)
      (fun savedNow => HasRow uid others
        (Between (row.popSegment cacheType segmentTypes) savedNow))
      (fun _ => HasRow uid others Interrupted) := by
  unfold saveCold
  split
  · rename_i hcold
    obtain ⟨rfl, hlength⟩ := hsaves.all_failed hcold.1 hcold.2
    rw [Option.toList_none, List.append_nil] at hattempts
    subst hattempts
    refine (hasRow_saveFirst hkey hsaves hcold.1 hlength).bind fun savedNow => ?_
    refine Exec.Triple.bind (S := fun _ => HasRow uid others
      (Between (row.popSegment cacheType segmentTypes) savedNow)) ?_
      fun _ _ hg => hg
    exact hasRow_modifyRow _
  · rename_i hpass
    intro g hg
    refine hg.mono ?_
    rintro now rfl
    exact ⟨⟨failed, returned, hattempts, hsaves.pass hpass, fun _ => hsaves.earlier hpass⟩,
      rfl, rfl, rfl, rfl, rfl⟩

theorem hasRow_saveTail (hkey : cacheKey <+: row.prompt) (savedNow : Bool) :
    Exec.Triple
      (HasRow uid others (Between (row.popSegment cacheType segmentTypes) savedNow))
      (saveTail R uid row cache cacheKey segmentTypes savedNow)
      (fun _ => HasRow uid others Row.SavesThenTail)
      (fun _ => HasRow uid others Row.SavesThenTail) := by
  unfold saveTail
  split
  · rename_i htail
    obtain ⟨hnone, rfl, hcheckpoint⟩ := htail
    refine Exec.Triple.bind (S := fun _ => HasRow uid others Row.SavesThenTail) ?_
      fun _ => Exec.Triple.skip ()
    refine (hasRow_insertFor _).pre ?_
    rintro g ⟨now, ⟨hawaits, hstage⟩, hrow⟩
    have hended : now.endedTypes ≠ [] := by
      rw [hstage.endedTypes]
      exact List.concat_ne_nil _ _
    have hinsertion : now.IsTail (.active row.cacheNamespace cacheKey cache
        (row.prompt.take row.promptCacheCount)) := by
      refine ⟨hstage.cacheNamespace.symm, ?_, by rw [hstage.prompt, hstage.promptCacheCount]; rfl⟩
      -- a prefix that is one token short is all but the last token
      have hlength : cacheKey.length + 1 = row.prompt.length := hcheckpoint
      have hprompt : now.prompt = row.prompt := hstage.prompt
      rw [hprompt, List.dropLast_eq_take, ← hlength, Nat.add_sub_cancel]
      exact List.prefix_iff_eq_take.mp hkey
    have hfinished : now.segmentTypes = [] := hstage.segmentTypes.trans hnone
    exact ⟨now, ⟨fun saved => hawaits.tail hfinished hended hinsertion _,
      fun e => hawaits.tail hfinished hended hinsertion _⟩, hrow⟩
  · exact fun g hg => hg.mono fun _ hnow => hnow.1.done

/-- A segment of a cache that cannot be trimmed. -/
theorem saveSegment_disciplined (hcan : R.canTrimPromptCache cache = false)
    {g : ResponseGenerator K σ π} (hrow : g.batchResults.get? uid = some row)
    (hkey : cacheKey <+: row.prompt) (hdone : row.SavesThenTail) :
    HasRow uid g.batchResults.get? Row.SavesThenTail (saveSegment R uid cache cacheKey g).2 := by
  have hfound : getRow uid g = (.ok row, g) := by simp only [getRow, hrow]
  unfold saveSegment
  rw [Exec.bind_of_ok hfound]
  rcases htypes : row.segmentTypes with _ | ⟨cacheType, segmentTypes⟩
  · exact ⟨row, hdone, hrow, fun _ _ => rfl⟩
  -- a tail is only there when no segment is to come
  obtain ⟨failed, returned, tail, hattempts, hsaves, htail⟩ := hdone
  have hnone : tail = none := by
    cases tail with
    | none => rfl
    | some attempt =>
      have hfinished := (htail attempt rfl).finished
      rw [htypes] at hfinished
      cases hfinished
  rw [hnone, Option.toList_none, List.append_nil] at hattempts
  have hstart : HasRow uid g.batchResults.get? (fun now => now = row) g :=
    ⟨row, rfl, hrow, fun _ _ => rfl⟩
  refine Exec.Triple.state (S := HasRow uid g.batchResults.get? Row.SavesThenTail) ?_ hstart
  refine Exec.Triple.bind (S := fun _ => HasRow uid g.batchResults.get?
    fun now => now = row.popSegment cacheType segmentTypes) ?_ fun _ => ?_
  · exact (hasRow_modifyRow _).pre fun g' hg => hg.mono fun now hnow => by rw [hnow]
  · simp only [hcan, Bool.false_eq_true, if_false]
    refine Exec.Triple.bind ((hasRow_saveCold hkey hattempts hsaves).weaken (fun _ hg => hg)
      (fun _ _ hg => hg) fun e g' hg => ?_) fun savedNow => hasRow_saveTail hkey savedNow
    refine hg.mono ?_
    rintro now ⟨savedNow, hnow⟩
    exact hnow.done

/-- What the batch generator reports in hybrid mode: caches that cannot be trimmed, those of a
segment at the end of a prefix of the row's prompt. -/
def Hybrid (R : Runtime (CacheNamespace K) σ π τ) (g : ResponseGenerator K σ π) :
    BatchEvent K π → Prop
  | .endOfSegment uid cache cacheKey => R.canTrimPromptCache cache = false ∧
    ∀ row, g.batchResults.get? uid = some row → cacheKey <+: row.prompt
  | .finish _ _ (some cache) => R.canTrimPromptCache cache = false
  | _ => True

theorem startRequest_disciplined (uid : ℕ) (modelKey : K) (requestedNamespace : Json)
    (prompt : List ℤ) (segmentTypes : List Role) :
    Exec.Keeps AllDisciplined
      (startRequest R uid modelKey requestedNamespace prompt segmentTypes) := by
  refine (Exec.Keeps.ofExcept _).bind fun cacheNamespace => ?_
  refine (disciplined_onPromptCache _).bind fun found => ?_
  refine Exec.Keeps.bind (Exec.Keeps.modify fun g hg u row hrow => ?_)
    fun _ => Exec.Keeps.pure found
  rw [Dict.get?_insert] at hrow
  split_ifs at hrow with hu
  · cases hrow
    exact ⟨[], none, none, rfl, .start, fun _ hnone => by cases hnone⟩
  · exact hg u row hrow

/-- The end of a generation saves nothing, and removes the row or leaves it as it was. -/
theorem finishRequest_disciplined {allTokens : Option (List ℤ)} {promptCache : Option π}
    {g : ResponseGenerator K σ π} (hg : AllDisciplined g)
    (hcan : ∀ cache ∈ promptCache, R.canTrimPromptCache cache = false) :
    AllDisciplined (finishRequest R uid allTokens promptCache g).2 := by
  unfold finishRequest
  rcases hrow : g.batchResults.get? uid with _ | row
  · have hmissing : getRow uid g = (.error (.keyError (toString uid)), g) := by
      simp only [getRow, hrow]
    rw [Exec.bind_of_error hmissing]
    exact hg
  have hfound : getRow uid g = (.ok row, g) := by simp only [getRow, hrow]
  rw [Exec.bind_of_ok hfound]
  cases promptCache with
  | none => exact hg
  | some cache =>
    cases allTokens with
    | none => exact hg
    | some tokens =>
      have hskip : saveFinished R uid row tokens cache g = (.ok (), g) := by
        simp only [saveFinished, hcan cache rfl, Bool.false_eq_true, if_false, Exec.pure_apply]
      dsimp only
      rw [Exec.bind_of_ok hskip]
      intro u row' hrow'
      have hrow' : (g.batchResults.erase uid).get? u = some row' := hrow'
      rw [Dict.get?_erase] at hrow'
      split_ifs at hrow' with hu
      exact hg u row' hrow'

theorem stepBatch_disciplined {g : ResponseGenerator K σ π} {event : BatchEvent K π}
    (hg : AllDisciplined g) (hevent : Hybrid R g event) : AllDisciplined (stepBatch R g event) := by
  cases event with
  | start uid modelKey requestedNamespace prompt segmentTypes =>
    exact (startRequest_disciplined uid modelKey requestedNamespace prompt segmentTypes).state hg
  | endOfSegment uid cache cacheKey =>
    rcases hrow : g.batchResults.get? uid with _ | row
    · have hmissing : getRow uid g = (.error (.keyError (toString uid)), g) := by
        simp only [getRow, hrow]
      rw [stepBatch, saveSegment, Exec.bind_of_error hmissing]
      exact hg
    · have hsaved := saveSegment_disciplined hevent.1 hrow (hevent.2 row hrow) (hg uid row hrow)
      exact hsaved.disciplined hg
  | finish uid allTokens promptCache =>
    refine finishRequest_disciplined hg fun cache hcache => ?_
    cases hcache
    exact hevent
  | trimTo nSequences nBytes => exact (disciplined_onPromptCache _).state hg

/-- Over caches that cannot be trimmed, however the requests interleave and whichever calls
raise: a warm prompt has no segment of its own saved; the segments of a cold one are saved in
turn, from the first one, until one save returns. After that at most one active insertion is
tried, of all but the last token of the prompt, in place of the prefix that served it. -/
theorem request_saves_first_then_tail (config : PolicyConfig) (b : σ)
    {g : ResponseGenerator K σ π} (hrun : Run (stepBatch R) (Hybrid R) (.new config b) g)
    {uid : ℕ} {row : Row K π} (hrow : g.batchResults.get? uid = some row) :
    ∃ (failed : List (Attempt K π)) (returned tail : Option (Attempt K π)),
      row.attempts = failed ++ returned.toList ++ tail.toList ∧ row.SavesInTurn failed returned ∧
        ∀ attempt ∈ tail, row.TailAfter returned attempt :=
  hrun.invariant (I := AllDisciplined) (fun _ _ hnone => by cases hnone)
    (fun _ _ hg hevent => stepBatch_disciplined hg hevent) uid row hrow

end Discipline

namespace Sample

/-- A cache for the tenant that cannot be trimmed. -/
def segmentCache (tokens : List ℤ) : Traced String := ((⟨"m", "tenant-a"⟩, tokens), false)

/-- A row of a request whose first save raised, whose second segment was saved, and whose last
one left the tail. -/
def savedRow : Row String (Traced String) where
  cacheNamespace := ⟨"m", "tenant-a"⟩
  prompt := [1, 2, 3, 4]
  promptCacheCount := 0
  segmentTypes := []
  segmentCacheSaved := true
  endedTypes := ["system", "user", "active"]
  attempts :=
    [⟨0, .stable ⟨"m", "tenant-a"⟩ [1] (segmentCache [1]), .error (.runtimeError "storage")⟩,
      ⟨1, .cache ⟨"m", "tenant-a"⟩ [1, 2] (segmentCache [1, 2]) "user", .ok true⟩,
      ⟨2, .active ⟨"m", "tenant-a"⟩ [1, 2, 3] (segmentCache [1, 2, 3]) [], .ok true⟩]

/-- The server of these requests. -/
abbrev Server := ResponseGenerator String (FaultyMap (CacheNamespace String) (Traced String))
  (Traced String)

/-- A server over a storage whose next change raises. -/
def faultyServer : Server :=
  .new config ⟨fun _ => none, some ⟨0, .before, .runtimeError "storage"⟩, []⟩

/-- The request at its start. -/
def segmented : Server := stepBatch tracedRuntime faultyServer
  (.start 0 "m" (.str "tenant-a") [1, 2, 3, 4] ["system", "user", "active"])

/-- The request when its cache has come to the end of `tokens`. -/
def segmentEnds (g : Server) (tokens : List ℤ) : Server :=
  stepBatch tracedRuntime g (.endOfSegment 0 (segmentCache tokens) tokens)

theorem segmentEnds_run {g : Server} (tokens prompt : List ℤ)
    (hrun : Run (stepBatch tracedRuntime) (Hybrid tracedRuntime) faultyServer g)
    (hprompt : (g.batchResults.get? 0).map Row.prompt = some prompt) (htokens : tokens <+: prompt) :
    Run (stepBatch tracedRuntime) (Hybrid tracedRuntime) faultyServer (segmentEnds g tokens) := by
  refine hrun.next ⟨rfl, fun row hrow => ?_⟩
  rw [hrow] at hprompt
  rwa [Option.some.inj hprompt]

theorem segmentEnds_row :
    (segmentEnds (segmentEnds (segmentEnds segmented [1]) [1, 2]) [1, 2, 3]).batchResults.get? 0 =
      some savedRow := rfl

end Sample

/-- The storage raises once: the first segment is tried in vain, the second one is saved, and the
tail follows. -/
theorem tenant_saves_first :
    ∃ (failed : List (Attempt String (Sample.Traced String)))
      (returned tail : Option (Attempt String (Sample.Traced String))),
      Sample.savedRow.attempts = failed ++ returned.toList ++ tail.toList ∧
        Sample.savedRow.SavesInTurn failed returned ∧
        ∀ attempt ∈ tail, Sample.savedRow.TailAfter returned attempt := by
  have hstart : Run (stepBatch Sample.tracedRuntime) (Hybrid Sample.tracedRuntime)
      Sample.faultyServer Sample.segmented := Run.start.next trivial
  have hfirst := Sample.segmentEnds_run [1] [1, 2, 3, 4] hstart rfl (by decide)
  have hsecond := Sample.segmentEnds_run [1, 2] [1, 2, 3, 4] hfirst rfl (by decide)
  have hlast := Sample.segmentEnds_run [1, 2, 3] [1, 2, 3, 4] hsecond rfl (by decide)
  exact request_saves_first_then_tail Sample.config _ hlast Sample.segmentEnds_row

/-- A candidate that is refused leaves its segment to the tail: the only segment gets both. -/
example : ((Sample.segmentEnds (stepBatch Sample.tracedRuntime
    (Sample.segmentEnds (stepBatch Sample.tracedRuntime (.new Sample.config .empty)
      (.start 0 "m" (.str "tenant-a") [5, 6, 7] ["system"])) [5, 6])
    (.start 0 "m" (.str "tenant-a") [1, 2] ["system"])) [1]).batchResults.get? 0).map Row.attempts =
      some [⟨0, .stable ⟨"m", "tenant-a"⟩ [1] (Sample.segmentCache [1]), .ok false⟩,
        ⟨0, .active ⟨"m", "tenant-a"⟩ [1] (Sample.segmentCache [1]) [], .ok true⟩] := rfl

end StateBraid.Mlx
