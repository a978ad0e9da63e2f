import StateBraid.Managed.Transport

/-!
# What a request does to the store

One effect lemma for each request: a drop erases at most its handle, a capture reclaims
what its plan says and then may store one state under a fresh name, and no other request
changes which states the store holds.
-/

namespace StateBraid.Managed
open Library Policy

/-! ## Handle names -/

theorem hexDigit_injOn {a b : ℕ} (ha : a < 16) (hb : b < 16) (h : hexDigit a = hexDigit b) :
    a = b := by
  have hall : ∀ x < 16, ∀ y < 16, hexDigit x = hexDigit y → x = y := by decide
  exact hall a ha b hb h

theorem map_hexDigit_inj {l m : List ℕ} (hl : ∀ d ∈ l, d < 16) (hm : ∀ d ∈ m, d < 16)
    (h : l.map hexDigit = m.map hexDigit) : l = m := by
  induction l generalizing m with
  | nil => simpa using h.symm
  | cons d l ih =>
    cases m with
    | nil => simp at h
    | cons e m =>
      simp only [List.map_cons, List.cons.injEq] at h
      rw [hexDigit_injOn (hl d List.mem_cons_self) (hm e List.mem_cons_self) h.1,
        ih (fun x hx => hl x (List.mem_cons_of_mem _ hx))
          (fun x hx => hm x (List.mem_cons_of_mem _ hx)) h.2]

/-- Two captures of one epoch never share a handle name. -/
theorem formatHandle_injective : Function.Injective formatHandle := by
  have hdigits (n : ℕ) : ∀ d ∈ (Nat.digits 16 n ++
      List.replicate (16 - (Nat.digits 16 n).length) 0).reverse, d < 16 := by
    intro d hd
    rcases List.mem_append.mp (List.mem_reverse.mp hd) with hd | hd
    · exact Nat.digits_lt_base (by norm_num) hd
    · rw [List.eq_of_mem_replicate hd]
      norm_num
  intro n m h
  simp only [formatHandle] at h
  have hchars := String.ofList_injective (String.append_right_inj _ |>.mp h)
  have hlist := List.reverse_injective (map_hexDigit_inj (hdigits n) (hdigits m) hchars)
  have hvalue := congrArg (Nat.ofDigits 16) hlist
  rwa [Nat.ofDigits_append_replicate_zero, Nat.ofDigits_append_replicate_zero,
    Nat.ofDigits_digits, Nat.ofDigits_digits] at hvalue

theorem formatHandle_ne_empty (n : ℕ) : formatHandle n ≠ "" := by
  intro h
  have := congrArg String.toList h
  simp [formatHandle] at this

namespace Server

/-! ## Reading the store -/

/-- The state a handle resolves to. -/
def stateOf (s : Server) (handle : String) : Option ManagedState :=
  (s.states.get? handle).map ManagedEntry.state

/-- The handle resolves on the server. -/
def Alive (s : Server) (handle : String) : Prop := handle ∈ s.states.keys

instance (s : Server) (handle : String) : Decidable (s.Alive handle) :=
  inferInstanceAs (Decidable (_ ∈ _))

theorem alive_iff {s : Server} {h : String} : s.Alive h ↔ ∃ state, s.stateOf h = some state := by
  rw [Alive, Dict.mem_keys_iff]
  simp [stateOf]

theorem not_alive_iff {s : Server} {h : String} : ¬ s.Alive h ↔ s.stateOf h = none := by
  rw [alive_iff, stateOf]
  cases s.states.get? h <;> simp

/-- The same store: the same handles with the same states, in the same epoch of the same
server. Restore marks and slots may differ. -/
structure SameStore (s s' : Server) : Prop where
  epoch : s'.epoch = s.epoch
  enabled : s'.enabled = s.enabled
  nextHandle : s'.nextHandle = s.nextHandle
  keys : s'.states.keys = s.states.keys
  stateOf : ∀ h, s'.stateOf h = s.stateOf h

theorem SameStore.refl (s : Server) : SameStore s s := ⟨rfl, rfl, rfl, rfl, fun _ => rfl⟩

theorem sameStore_setSlot (s : Server) (idSlot : ℤ) (slot : Slot) :
    SameStore s (s.setSlot idSlot slot) := ⟨rfl, rfl, rfl, rfl, fun _ => rfl⟩

/-- A restore changes at most a slot and one restore mark. -/
theorem sameStore_restore (s : Server) (up : Upstream) (idSlot : ℤ) (slot : Slot)
    (handle : String) : SameStore s (s.restore up idSlot slot handle).2 := by
  unfold restore
  split
  · exact .refl s
  · rename_i entry hentry
    dsimp only
    split_ifs
    · exact .refl s
    · exact sameStore_setSlot s idSlot _
    · exact sameStore_setSlot s idSlot _
    · exact sameStore_setSlot s idSlot _
    · refine ⟨rfl, rfl, rfl, Dict.keys_insert_of_mem _ (Dict.mem_keys_of_get? hentry), fun h => ?_⟩
      simp only [stateOf, Dict.get?_insert]
      split_ifs with hself
      · simp [hself, hentry]
      · rfl

/-! ## Requests as tasks -/

/-- Integers of 64 bits are integers for the server's parser. -/
theorem asNumberInteger?_int {n : ℤ} (hmin : -2 ^ 63 ≤ n) (hmax : n < 2 ^ 64) :
    (Json.int n).asNumberInteger? = some n := by
  unfold Json.asNumberInteger?
  exact if_pos ⟨hmin, hmax⟩

/-- Tokens in range pass the route. -/
theorem parseTokens_map {tokens : List ℤ}
    (h : ∀ token ∈ tokens, -2 ^ 31 ≤ token ∧ token ≤ 2 ^ 31 - 1) :
    parseTokens (tokens.map Json.int) = .ok tokens := by
  induction tokens with
  | nil => rfl
  | cons token tokens ih =>
    have hrange := h token List.mem_cons_self
    have hout : ¬ (token < -2 ^ 31 ∨ token > 2 ^ 31 - 1) := by omega
    have hwraps : token.bmod (2 ^ 64) = token := Int.bmod_eq_of_le (by omega) (by omega)
    have hkept := asNumberInteger?_int (n := token) (by omega) (by omega)
    simp only [List.map_cons, parseTokens, hkept, hwraps, if_neg hout,
      ih fun t ht => h t (List.mem_cons_of_mem _ ht)]

/-- An unsigned integer out of range can wrap into it. -/
example : parseTokens [.int (2 ^ 64 - 1)] = .ok [-1] := rfl

/-- A slot id in range is read as it is. -/
theorem parseSlot_of_lt {data : Json} {idSlot : ℕ} (hslot : idSlot < 2 ^ 31)
    (h : data.field? "id_slot" = some (.int idSlot)) : parseSlot data = .ok (idSlot : ℤ) := by
  have hkept : (data.field? "id_slot").bind Json.asNumberInteger? = some (idSlot : ℤ) := by
    rw [h, Option.bind_some, asNumberInteger?_int (by omega) (by omega)]
  have hwraps : (idSlot : ℤ).bmod (2 ^ 32) = idSlot := Int.bmod_eq_of_le (by omega) (by omega)
  rw [parseSlot, hkept]
  exact congrArg Except.ok hwraps

theorem parseAction_drop (epoch handle : String) :
    parseAction (Request.drop epoch handle).payload =
      .ok { action := "drop", handle := handle, epoch := epoch } := by
  rfl

theorem parseAction_clear (epoch : String) (idSlot : ℕ) :
    parseAction (Request.clear epoch idSlot).payload =
      (do
        let idSlot ← parseSlot (Request.clear epoch idSlot).payload
        return { action := "clear", idSlot := idSlot, epoch := epoch }) := rfl

theorem parseAction_clear_of_lt (epoch : String) {idSlot : ℕ} (hslot : idSlot < 2 ^ 31) :
    parseAction (Request.clear epoch idSlot).payload =
      .ok { action := "clear", idSlot := idSlot, epoch := epoch } := by
  rw [parseAction_clear, parseSlot_of_lt hslot rfl]
  rfl

theorem parseAction_restore (epoch handle : String) (idSlot : ℕ) :
    parseAction (Request.restore epoch idSlot handle).payload =
      (do
        let idSlot ← parseSlot (Request.restore epoch idSlot handle).payload
        return { action := "restore", idSlot := idSlot, handle := handle, epoch := epoch }) := rfl

theorem parseAction_restore_of_lt (epoch handle : String) {idSlot : ℕ} (hslot : idSlot < 2 ^ 31) :
    parseAction (Request.restore epoch idSlot handle).payload =
      .ok { action := "restore", idSlot := idSlot, handle := handle, epoch := epoch } := by
  rw [parseAction_restore, parseSlot_of_lt hslot rfl]
  rfl

theorem parseAction_capture (epoch : String) (idSlot : ℕ) (token : ℤ) (tokens : List ℤ) :
    parseAction (Request.capture epoch idSlot (token :: tokens)).payload =
      (do
        let idSlot ← parseSlot (Request.capture epoch idSlot (token :: tokens)).payload
        let parsed ← parseTokens ((token :: tokens).map Json.int)
        return { action := "capture", idSlot := idSlot, epoch := epoch,
                 expectedTokens := parsed }) := rfl

theorem parseAction_capture_nil (epoch : String) (idSlot : ℕ) :
    parseAction (Request.capture epoch idSlot []).payload =
      (do
        let _ ← parseSlot (Request.capture epoch idSlot []).payload
        throw ⟨"expected_tokens must be a non-empty integer array", .invalidRequest⟩) := rfl

theorem parseAction_capture_of_lt (epoch : String) {idSlot : ℕ} (hslot : idSlot < 2 ^ 31)
    {token : ℤ} {tokens : List ℤ}
    (h : ∀ t ∈ token :: tokens, -2 ^ 31 ≤ t ∧ t ≤ 2 ^ 31 - 1) :
    parseAction (Request.capture epoch idSlot (token :: tokens)).payload =
      .ok { action := "capture", idSlot := idSlot, epoch := epoch,
            expectedTokens := token :: tokens } := by
  rw [parseAction_capture, parseSlot_of_lt hslot rfl, parseTokens_map h]
  rfl

/-- Which handles serving a capture erases to make room. -/
def captureReclaims (s : Server) (idSlot : ℤ) (expectedTokens : List ℤ) : List String :=
  match s.slotAt idSlot with
  | none => []
  | some slot =>
    if slot.tokens.length = 0 ∨ expectedTokens ≠ slot.tokens then []
    else
      match s.budgetPlan ((s.snapshot slot).main.length + (s.snapshot slot).drft.length) with
      | .error _ => []
      | .ok evicted => evicted

/-- The reply of a capture that stored a state. -/
def captureReply (s : Server) (idSlot : ℤ) (state : ManagedState) (evicted : List String) : Json :=
  .obj [("success", .bool true), ("epoch", .str s.epoch),
    ("handle", .str (formatHandle s.nextHandle)), ("id_slot", .int idSlot),
    ("n_tokens", .int state.tokens.length), ("n_bytes", .int state.size),
    ("evicted", .arr (evicted.map Json.str))]

/-- How serving a capture ends: refused with nothing changed, failed in a read after the
reclaiming, or stored under the next name. -/
inductive CaptureOutcome (s : Server) (up : Upstream) (idSlot : ℤ) (expectedTokens : List ℤ) :
    Except Refusal Json × Server → Prop
  | refused (refusal : Refusal) (hkeep : s.captureReclaims idSlot expectedTokens = []) :
      CaptureOutcome s up idSlot expectedTokens (.error refusal, s)
  | unread (refusal : Refusal) (n : ℕ) (hread : up.readTarget n ≠ n ∨ up.readDraft n ≠ n) :
      CaptureOutcome s up idSlot expectedTokens
        (.error refusal, s.reclaim (s.captureReclaims idSlot expectedTokens))
  | stored (slot : Slot) (hslot : s.slotAt idSlot = some slot) (htokens : expectedTokens = slot.tokens)
      (hne : slot.tokens ≠ []) :
      CaptureOutcome s up idSlot expectedTokens
        (.ok (s.captureReply idSlot (s.snapshot slot) (s.captureReclaims idSlot expectedTokens)),
          (s.reclaim (s.captureReclaims idSlot expectedTokens)).store (s.snapshot slot))

theorem capture_outcome {s : Server} {up : Upstream} {idSlot : ℤ} {slot : Slot}
    {expectedTokens : List ℤ} (hslot : s.slotAt idSlot = some slot) :
    CaptureOutcome s up idSlot expectedTokens (s.capture up idSlot slot expectedTokens) := by
  have hreclaims (hne : slot.tokens.length ≠ 0) (htokens : expectedTokens = slot.tokens) :
      s.captureReclaims idSlot expectedTokens =
        match s.budgetPlan ((s.snapshot slot).main.length + (s.snapshot slot).drft.length) with
        | .error _ => []
        | .ok evicted => evicted := by
    simp [captureReclaims, hslot, hne, htokens]
  unfold capture
  split_ifs with hempty hlength htokens
  · exact .refused _ (by simp [captureReclaims, hslot, hempty])
  · refine .refused _ ?_
    have hne : expectedTokens ≠ slot.tokens := fun heq => hlength (by rw [heq])
    simp [captureReclaims, hslot, hne]
  · exact .refused _ (by simp [captureReclaims, hslot, htokens])
  · rw [not_not] at htokens
    have hplan := hreclaims hempty htokens
    dsimp only
    split
    · rename_i refusal hbudget
      rw [hbudget] at hplan
      exact .refused _ hplan
    · rename_i evicted hbudget
      rw [hbudget] at hplan
      dsimp only at hplan
      subst hplan
      split_ifs with htgt hdft
      · exact .unread _ _ (Or.inl htgt)
      · exact .unread _ _ (Or.inr hdft.2)
      · exact .stored slot hslot htokens (fun hnil => hempty (by simp [hnil]))

/-- The server serves a mutation that names this epoch. -/
def Accepts (s : Server) (epoch : String) : Prop := s.enabled = true ∧ epoch = s.epoch

instance (s : Server) (epoch : String) : Decidable (s.Accepts epoch) :=
  inferInstanceAs (Decidable (_ ∧ _))

section Gates

variable {s : Server} {action : CacheAction}

/-- Past the gates a drop goes to the store. -/
theorem processTask_drop (h : s.Accepts action.epoch) (haction : action.action = "drop")
    (up : Upstream) : s.processTask up action = s.drop action.handle := by
  rw [processTask, if_neg (by simp [h.1]), if_neg (by simp [haction]), if_neg (not_not.mpr h.2),
    if_pos haction]

/-- Past the gates the other mutations need their slot. -/
theorem processTask_noSlot (h : s.Accepts action.epoch) (hlist : action.action ≠ "list")
    (hdrop : action.action ≠ "drop") (hslot : s.slotAt action.idSlot = none) (up : Upstream) :
    s.processTask up action = (.error ⟨"Invalid slot ID", .invalidRequest⟩, s) := by
  rw [processTask, if_neg (by simp [h.1]), if_neg hlist, if_neg (not_not.mpr h.2), if_neg hdrop,
    hslot]

theorem processTask_clear {slot : Slot} (h : s.Accepts action.epoch)
    (haction : action.action = "clear") (hslot : s.slotAt action.idSlot = some slot)
    (up : Upstream) : s.processTask up action = s.clear action.idSlot slot := by
  rw [processTask, if_neg (by simp [h.1]), if_neg (by simp [haction]), if_neg (not_not.mpr h.2),
    if_neg (by simp [haction]), hslot]
  exact if_pos haction

theorem processTask_capture {slot : Slot} (h : s.Accepts action.epoch)
    (haction : action.action = "capture") (hslot : s.slotAt action.idSlot = some slot)
    (up : Upstream) :
    s.processTask up action = s.capture up action.idSlot slot action.expectedTokens := by
  rw [processTask, if_neg (by simp [h.1]), if_neg (by simp [haction]), if_neg (not_not.mpr h.2),
    if_neg (by simp [haction]), hslot]
  exact (if_neg (by simp [haction])).trans (if_pos haction)

theorem processTask_restore {slot : Slot} (h : s.Accepts action.epoch)
    (haction : action.action = "restore") (hslot : s.slotAt action.idSlot = some slot)
    (up : Upstream) :
    s.processTask up action = s.restore up action.idSlot slot action.handle := by
  rw [processTask, if_neg (by simp [h.1]), if_neg (by simp [haction]), if_neg (not_not.mpr h.2),
    if_neg (by simp [haction]), hslot]
  exact (if_neg (by simp [haction])).trans ((if_neg (by simp [haction])).trans (if_pos haction))

end Gates

theorem post_rejected {s : Server} (up : Upstream) {data : Json} {action : CacheAction}
    (hparse : parseAction data = .ok action) (hlist : action.action ≠ "list")
    (h : ¬ s.Accepts action.epoch) :
    ∃ refusal, s.postStatebraidCache up data = (.error refusal, s) := by
  unfold postStatebraidCache
  by_cases henabled : s.enabled = false
  · exact ⟨_, if_pos henabled⟩
  · have hepoch : action.epoch ≠ s.epoch := fun heq => h ⟨by simpa using henabled, heq⟩
    refine ⟨⟨"Invalid or stale StateBraid managed-cache epoch", .invalidRequest⟩, ?_⟩
    rw [if_neg henabled, hparse]
    dsimp only
    rw [processTask, if_neg henabled, if_neg hlist, if_pos hepoch]

/-- A body that the route refuses changes nothing. -/
theorem post_unparsed (s : Server) (up : Upstream) {data : Json} {refusal : Refusal}
    (hparse : parseAction data = .error refusal) :
    ∃ refusal, s.postStatebraidCache up data = (.error refusal, s) := by
  unfold postStatebraidCache
  split
  · exact ⟨_, rfl⟩
  · rw [hparse]
    exact ⟨refusal, rfl⟩

theorem post_accepted {s : Server} {up : Upstream} {data : Json} {action : CacheAction}
    (hparse : parseAction data = .ok action) (h : s.Accepts action.epoch) :
    s.postStatebraidCache up data = s.processTask up action := by
  unfold postStatebraidCache
  rw [if_neg (by simp [h.1]), hparse]

/-- What a drop request does. -/
theorem respond_drop (s : Server) (x : Exchange) (epoch handle : String) :
    s.Accepts epoch ∧ s.respond x (.drop epoch handle) =
        (httpResult (s.drop handle).1, (s.drop handle).2) ∨
      ¬ s.Accepts epoch ∧ ∃ e, s.respond x (.drop epoch handle) = (.error e, s) := by
  by_cases h : s.Accepts epoch
  · refine Or.inl ⟨h, ?_⟩
    rw [respond, post_accepted (parseAction_drop epoch handle) h, processTask_drop h rfl]
  · obtain ⟨refusal, hpost⟩ := post_rejected x.upstream (parseAction_drop epoch handle)
      (by simp) h
    refine Or.inr ⟨h, .httpError refusal.message, ?_⟩
    rw [respond, hpost]
    rfl

/-- What a capture request with a valid body does. -/
theorem respond_capture (s : Server) (x : Exchange) (epoch : String) {idSlot : ℕ}
    (hslot : idSlot < 2 ^ 31) {expectedTokens : List ℤ} (hne : expectedTokens ≠ [])
    (hrange : ∀ token ∈ expectedTokens, -2 ^ 31 ≤ token ∧ token ≤ 2 ^ 31 - 1) :
    (s.Accepts epoch ∧ ∃ r, CaptureOutcome s x.upstream idSlot expectedTokens r ∧
        s.respond x (.capture epoch idSlot expectedTokens) = (httpResult r.1, r.2)) ∨
      ¬ s.Accepts epoch ∧ ∃ e, s.respond x (.capture epoch idSlot expectedTokens) = (.error e, s) := by
  obtain ⟨token, tokens, rfl⟩ := List.exists_cons_of_ne_nil hne
  have hparse := parseAction_capture_of_lt epoch hslot hrange
  by_cases h : s.Accepts epoch
  · refine Or.inl ⟨h, s.processTask x.upstream ⟨"capture", idSlot, "", epoch, token :: tokens⟩,
      ?_, ?_⟩
    · cases hat : s.slotAt idSlot with
      | none =>
        rw [processTask_noSlot h (by simp) (by simp) hat]
        exact .refused _ (by simp [captureReclaims, hat])
      | some slot =>
        rw [processTask_capture h rfl hat]
        exact capture_outcome hat
    · rw [respond, post_accepted hparse h]
  · obtain ⟨refusal, hpost⟩ := post_rejected x.upstream hparse (by simp) h
    exact Or.inr ⟨h, .httpError refusal.message, by rw [respond, hpost]; rfl⟩

/-- The requests that leave the store as it is. -/
def Passive : Request → Prop
  | .drop .. | .capture .. => False
  | _ => True

theorem respond_list (s : Server) (x : Exchange) :
    s.respond x .list =
      if s.enabled = false then (.error (.httpError "StateBraid managed cache is disabled"), s)
      else (.ok s.listReply, s) := by
  by_cases h : s.enabled = false
  · simp [respond, getStatebraidCache, h, httpResult]
  · simp [respond, getStatebraidCache, processTask, h, httpResult]

/-- What a posted request leaves: the same server, or the one that its task leaves. -/
theorem post_state {P : Server → Prop} {s : Server} {up : Upstream} (hsame : P s)
    (htask : ∀ action, P (s.processTask up action).2) (data : Json) :
    P (s.postStatebraidCache up data).2 := by
  unfold postStatebraidCache
  split_ifs
  · exact hsame
  · split
    · exact hsame
    · exact htask _

/-- What a request leaves: the same server, the one that a task leaves, or, after a
completion, one with another slot. -/
theorem respond_state {P : Server → Prop} {s : Server} {x : Exchange} (hsame : P s)
    (htask : ∀ action, P (s.processTask x.upstream action).2)
    (hslot : ∀ idSlot, ∀ slot : LiveSlot, P (s.setSlot idSlot slot.val)) (request : Request) :
    P (s.respond x request).2 := by
  have hpost := post_state hsame htask
  cases request with
  | props | slots => exact hsame
  | list =>
    rw [respond_list]
    split <;> exact hsame
  | completion prompt idSlot =>
    rw [respond]
    dsimp only
    split
    · exact hslot _ _
    · exact hsame
  | clear epoch idSlot => exact hpost (Request.clear epoch idSlot).payload
  | capture epoch idSlot tokens => exact hpost (Request.capture epoch idSlot tokens).payload
  | restore epoch idSlot handle => exact hpost (Request.restore epoch idSlot handle).payload
  | drop epoch handle => exact hpost (Request.drop epoch handle).payload

theorem sameStore_post (s : Server) (up : Upstream) {data : Json}
    (hactions : ∀ action, parseAction data = .ok action →
      action.action = "clear" ∨ action.action = "restore") :
    SameStore s (s.postStatebraidCache up data).2 := by
  rcases hparse : parseAction data with refusal | action
  · obtain ⟨refusal, hpost⟩ := post_unparsed s up hparse
    rw [hpost]
    exact .refl s
  have haction := hactions action hparse
  have hlist : action.action ≠ "list" := by rcases haction with h | h <;> simp [h]
  by_cases h : s.Accepts action.epoch
  · rw [post_accepted hparse h]
    cases hslot : s.slotAt action.idSlot with
    | none =>
      have hdrop : action.action ≠ "drop" := by rcases haction with h | h <;> simp [h]
      rw [processTask_noSlot h hlist hdrop hslot]
      exact .refl s
    | some slot =>
      rcases haction with haction | haction
      · rw [processTask_clear h haction hslot]
        exact sameStore_setSlot s _ _
      · rw [processTask_restore h haction hslot]
        exact sameStore_restore s up _ _ _
  · obtain ⟨refusal, hpost⟩ := post_rejected up hparse hlist h
    rw [hpost]
    exact .refl s

theorem parseAction_clear_action (epoch : String) (idSlot : ℕ) {action : CacheAction}
    (hparse : parseAction (Request.clear epoch idSlot).payload = .ok action) :
    action.action = "clear" := by
  rw [parseAction_clear] at hparse
  generalize parseSlot (Request.clear epoch idSlot).payload = read at hparse
  cases read <;> cases hparse
  rfl

theorem parseAction_restore_action (epoch handle : String) (idSlot : ℕ) {action : CacheAction}
    (hparse : parseAction (Request.restore epoch idSlot handle).payload = .ok action) :
    action.action = "restore" := by
  rw [parseAction_restore] at hparse
  generalize parseSlot (Request.restore epoch idSlot handle).payload = read at hparse
  cases read <;> cases hparse
  rfl

theorem respond_passive (s : Server) (x : Exchange) {request : Request} (h : Passive request) :
    SameStore s (s.respond x request).2 := by
  cases request with
  | drop | capture => exact h.elim
  | list =>
    rw [respond_list]
    split <;> exact .refl s
  | props | slots => exact .refl s
  | completion =>
    rw [respond]
    dsimp only
    split
    · exact sameStore_setSlot s _ _
    · exact .refl s
  | clear epoch idSlot =>
    have hpost := sameStore_post s x.upstream fun _ hparse =>
      Or.inl (parseAction_clear_action epoch idSlot hparse)
    exact hpost
  | restore epoch idSlot handle =>
    have hpost := sameStore_post s x.upstream fun _ hparse =>
      Or.inr (parseAction_restore_action epoch handle idSlot hparse)
    exact hpost

end Server

end StateBraid.Managed
