import StateBraid.Errors
import StateBraid.Library.Prefix
import StateBraid.Managed.Json

/-!
# The boundary of the system prefix

Two probes continue the leading system messages in the two ways a conversation can go
on. The server caches what the prompt begins with in common with both of them, so that
nothing of the next role is in it.
-/
namespace StateBraid.Mlx
open Library Managed

/-- `tokenizer.apply_chat_template(messages, add_generation_prompt, **template_kwargs)`. -/
abbrev ChatTemplate (K : Type) := List Json → Bool → K → Except PyError (List ℤ)

/-- `_common_token_prefix_len`. -/
def commonTokenPrefixLen (left right : List ℤ) : ℕ :=
  match (left.zip right).findIdx? (fun ab => ab.1 ≠ ab.2) with
  | some index => index
  | none => min left.length right.length

/-- The loop that counts the leading system messages; a message is a dictionary. -/
def leadingSystem : List Json → Except PyError ℕ
  | [] => .ok 0
  | message :: messages =>
    match message.field? "role" with
    | none => .error (.keyError "role")
    | some role =>
      if role.eqStr "system" then (leadingSystem messages).map (· + 1) else .ok 0

/-- `{"role": role, "content": ""}`. -/
def emptyMessage (role : String) : Json := .obj [("role", .str role), ("content", .str "")]

/-- `_statebraid_role_neutral_system_end`. -/
def roleNeutralSystemEnd {K : Type} (applyChatTemplate : ChatTemplate K) (messages : List Json)
    (prompt : List ℤ) (templateKwargs : K) : Except PyError ℕ := do
  let numSystem ← leadingSystem messages
  if numSystem ≤ 0 then return 0
  let systemMessages := messages.take numSystem
  let userProbe ← applyChatTemplate (systemMessages ++ [emptyMessage "user"]) false templateKwargs
  let boundary := commonTokenPrefixLen userProbe prompt
  match applyChatTemplate (systemMessages ++ [emptyMessage "assistant", emptyMessage "user"])
    false templateKwargs with
  | .error _ => return boundary
  | .ok assistantProbe =>
    return min boundary (commonTokenPrefixLen userProbe assistantProbe)

/-- The system segment of `_tokenize`: the prompt up to the boundary, unless that is nothing
or all of it. -/
def systemSegment (prompt : List ℤ) (sysEnd : ℕ) : Option (List ℤ) :=
  if 0 < sysEnd ∧ sysEnd < prompt.length then some (prompt.take sysEnd) else none

theorem commonTokenPrefixLen_isGreatest (left right : List ℤ) :
    IsGreatest {n | AgreeOn n [left, right]} (commonTokenPrefixLen left right) := by
  have hpair := isGreatest_agreeOn_pair left right
  unfold commonTokenPrefixLen
  cases hfound : (left.zip right).findIdx? (fun ab => ab.1 ≠ ab.2) <;> rwa [hfound] at hpair

/-- The order of the words does not matter. -/
theorem isGreatest_agreeOn_perm {n : ℕ} {words words' : List (List ℤ)}
    (h : IsGreatest {k | AgreeOn k words} n) (hperm : words.Perm words') :
    IsGreatest {k | AgreeOn k words'} n :=
  ⟨AgreeOn.subset h.1 hperm.symm.subset, fun _ hk => h.2 (AgreeOn.subset hk hperm.subset)⟩

/-- The boundary of a prompt and its two probes: the longest prefix they share. The segment
that is cached is in all three, and no longer prefix is. -/
structure RoleNeutral (prompt user assistant : List ℤ) (sysEnd : ℕ) : Prop where
  greatest : IsGreatest {n | AgreeOn n [prompt, user, assistant]} sysEnd
  shared : ∀ segment, systemSegment prompt sysEnd = some segment →
    segment <+: prompt ∧ segment <+: user ∧ segment <+: assistant
  maximal : ∀ segment, systemSegment prompt sysEnd = some segment →
    ∀ w, w <+: prompt → w <+: user → w <+: assistant → w <+: segment

theorem roleNeutral_of_isGreatest {prompt user assistant : List ℤ} {sysEnd : ℕ}
    (h : IsGreatest {n | AgreeOn n [prompt, user, assistant]} sysEnd) :
    RoleNeutral prompt user assistant sysEnd := by
  have hsegment {segment : List ℤ} (hcut : systemSegment prompt sysEnd = some segment) :
      segment = prompt.take sysEnd := by
    unfold systemSegment at hcut
    split_ifs at hcut
    exact (Option.some.inj hcut).symm
  refine ⟨h, fun segment hcut => ?_, fun segment hcut w hprompt huser hassistant => ?_⟩
  · obtain ⟨w, hlength, hw⟩ := h.1
    have hself : w = segment := by
      rw [hsegment hcut, List.prefix_iff_eq_take.mp (hw prompt (by simp)), hlength]
    subst hself
    exact ⟨hw prompt (by simp), hw user (by simp), hw assistant (by simp)⟩
  · have hle : w.length ≤ sysEnd := h.2 ⟨w, rfl, by simp [hprompt, huser, hassistant]⟩
    rw [hsegment hcut]
    exact List.prefix_take_iff.mpr ⟨hprompt, hle⟩

/-- The loop stops at the first message of another role. -/
theorem leadingSystem_append {systemMessages rest : List Json}
    (hsystem : ∀ message ∈ systemMessages, ∃ role,
      message.field? "role" = some role ∧ role.eqStr "system" = true)
    (hrest : ∀ message ∈ rest.head?, ∃ role,
      message.field? "role" = some role ∧ role.eqStr "system" = false) :
    leadingSystem (systemMessages ++ rest) = .ok systemMessages.length := by
  induction systemMessages with
  | nil =>
    cases rest with
    | nil => rfl
    | cons message rest =>
      obtain ⟨role, hrole, hother⟩ := hrest message rfl
      simp [leadingSystem, hrole, hother]
  | cons message systemMessages ih =>
    obtain ⟨role, hrole, hsame⟩ := hsystem message List.mem_cons_self
    have htail := ih fun m hm => hsystem m (List.mem_cons_of_mem _ hm)
    rw [List.cons_append, leadingSystem, hrole]
    simp only [hsame, if_true, htail, Except.map, List.length_cons]

/-- With a leading system message and both probes rendered, the boundary is the longest
common prefix of the prompt and the two probes. -/
theorem system_boundary_is_common_prefix {K : Type} (applyChatTemplate : ChatTemplate K)
    (systemMessages rest : List Json) (prompt : List ℤ) (templateKwargs : K)
    {userProbe assistantProbe : List ℤ} (hleading : systemMessages ≠ [])
    (hsystem : ∀ message ∈ systemMessages, ∃ role,
      message.field? "role" = some role ∧ role.eqStr "system" = true)
    (hrest : ∀ message ∈ rest.head?, ∃ role,
      message.field? "role" = some role ∧ role.eqStr "system" = false)
    (huser : applyChatTemplate (systemMessages ++ [emptyMessage "user"]) false templateKwargs =
      .ok userProbe)
    (hassistant : applyChatTemplate
      (systemMessages ++ [emptyMessage "assistant", emptyMessage "user"]) false templateKwargs =
        .ok assistantProbe) :
    ∃ sysEnd, roleNeutralSystemEnd applyChatTemplate (systemMessages ++ rest) prompt
        templateKwargs = .ok sysEnd ∧
      RoleNeutral prompt userProbe assistantProbe sysEnd := by
  refine ⟨min (commonTokenPrefixLen userProbe prompt)
    (commonTokenPrefixLen userProbe assistantProbe), ?_, ?_⟩
  · have hcount := leadingSystem_append hsystem hrest
    have hnot : ¬ systemMessages.length ≤ 0 := by
      simpa [List.length_eq_zero_iff] using hleading
    simp only [roleNeutralSystemEnd, hcount, bind, Except.bind, hnot, if_false, List.take_left,
      huser, hassistant, pure, Except.pure]
  · have hthree := isGreatest_agreeOn_append (commonTokenPrefixLen_isGreatest userProbe prompt)
      (commonTokenPrefixLen_isGreatest userProbe assistantProbe)
    exact roleNeutral_of_isGreatest
      (isGreatest_agreeOn_perm hthree (List.Perm.swap prompt userProbe _))

/-- A template that renders the two probes of one system message, and nothing else. -/
def sampleTemplate : ChatTemplate Unit := fun messages _ _ =>
  match messages.map (fun message => (message.get "role").asStr?) with
  | [some "system", some "user"] => .ok [10, 11, 12, 20, 21, 99]
  | [some "system", some "assistant", some "user"] => .ok [10, 11, 12, 30, 31, 98]
  | _ => .error (.valueError "roles")

theorem system_boundary_is_common_prefix_sample :
    ∃ sysEnd, roleNeutralSystemEnd sampleTemplate
        ([.obj [("role", .str "system"), ("content", .str "s")]] ++
          [.obj [("role", .str "assistant"), ("content", .str "old")],
            .obj [("role", .str "user"), ("content", .str "u")]])
        [10, 11, 12, 30, 31, 77] () = .ok sysEnd ∧
      RoleNeutral [10, 11, 12, 30, 31, 77] [10, 11, 12, 20, 21, 99] [10, 11, 12, 30, 31, 98]
        sysEnd :=
  system_boundary_is_common_prefix sampleTemplate _ _ _ () (by simp)
    (fun message hmem => ⟨.str "system", by
      rw [List.mem_singleton.mp hmem]
      exact ⟨rfl, rfl⟩⟩)
    (fun message hmem => ⟨.str "assistant", by
      rw [← Option.some.inj hmem]
      exact ⟨rfl, rfl⟩⟩)
    rfl rfl

end StateBraid.Mlx
