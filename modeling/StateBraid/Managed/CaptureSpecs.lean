import StateBraid.Managed.AdapterSpecs

/-!
# What a capture leaves behind

A capture that returns names the state it stored and the handles it erased for it. One
that fails has left the store alone, or has erased handles, or has erased handles and
stored a state under a name that the client never learns.
-/

namespace StateBraid.Managed
open Library Policy LlamaCpp Exec

/-! ## The reclaimed handles -/

theorem evictedHandles_subset {deficit : ℕ} {handle : String} :
    ∀ {reclaimed : ℕ} {items : List (String × ManagedEntry)},
      handle ∈ evictedHandles deficit reclaimed items → handle ∈ items.map Prod.fst
  | _, [], h => by simp [evictedHandles] at h
  | reclaimed, (name, entry) :: items, h => by
    unfold evictedHandles at h
    rw [List.map_cons, List.mem_cons]
    split_ifs at h
    · exact Or.inr (evictedHandles_subset h)
    · rcases List.mem_cons.mp h with rfl | h
      · exact Or.inl rfl
      · exact Or.inr (evictedHandles_subset h)
    · simp at h

theorem Server.captureReclaims_alive {s : Server} {idSlot : ℤ} {expectedTokens : List ℤ}
    {handle : String} (h : handle ∈ s.captureReclaims idSlot expectedTokens) : s.Alive handle := by
  unfold captureReclaims at h
  split at h
  · simp at h
  split at h
  · simp at h
  split at h
  · simp at h
  rename_i hplan
  unfold budgetPlan at hplan
  dsimp only at hplan
  split_ifs at hplan
  · cases hplan
    exact evictedHandles_subset h
  · cases hplan
    simp at h
  · cases hplan
    simp at h

/-- The response names exactly what was erased. -/
theorem evictedNames_captureReply {s : Server} (hs : s.WellFormed) (idSlot : ℤ)
    (state : ManagedState) {evicted : List String} (halive : ∀ h ∈ evicted, s.Alive h) :
    evictedNames (s.captureReply idSlot state evicted) = some evicted := by
  change (evicted.map Json.str).mapM (fun item => item.asStr?.filter (· ≠ "")) = some evicted
  induction evicted with
  | nil => rfl
  | cons handle evicted ih =>
    obtain ⟨n, -, hname⟩ := hs.numbered (halive handle List.mem_cons_self)
    have hne : handle ≠ "" := hname ▸ formatHandle_ne_empty n
    rw [List.map_cons, List.mapM_cons, ih fun h hmem => halive h (List.mem_cons_of_mem _ hmem)]
    simp [Json.asStr?, Option.filter, hne]

/-! ## The checks of the client -/

/-- The tokens that the client sends a capture for. -/
def ValidTokens (tokens : List ℤ) : Prop :=
  tokens ≠ [] ∧ ∀ token ∈ tokens, -2 ^ 31 ≤ token ∧ token ≤ 2 ^ 31 - 1

instance (tokens : List ℤ) : Decidable (ValidTokens tokens) :=
  inferInstanceAs (Decidable (_ ∧ _))

theorem captureTokens_ok {tokens : List ℤ} (h : ValidTokens tokens) :
    captureTokens tokens = .ok () := by
  unfold captureTokens
  rw [if_neg, if_neg h.1]
  rw [List.any_eq_true]
  rintro ⟨token, hmem, hout⟩
  have := h.2 token hmem
  rw [decide_eq_true_eq] at hout
  omega

theorem captureTokens_error {tokens : List ℤ} (h : ¬ ValidTokens tokens) :
    ∃ e, captureTokens tokens = .error e := by
  unfold captureTokens
  split_ifs with hrange hempty
  · exact ⟨_, rfl⟩
  · exact ⟨_, rfl⟩
  · refine absurd ⟨hempty, fun token hmem => ?_⟩ h
    by_contra hout
    refine hrange (List.any_eq_true.mpr ⟨token, hmem, decide_eq_true ?_⟩)
    omega

/-- The handle object of the state a capture stored. -/
def capturedHandle (A : Adapter) (s : Server) (slot : Slot) : StateHandle :=
  ⟨A.backendIdentity, A.managedEpoch, formatHandle s.nextHandle, A.idSlot, slot.tokens.length,
    (s.snapshot slot).size⟩

theorem parseCapture_captureReply {A : Adapter} {s : Server} (hs : s.WellFormed) {slot : Slot}
    (hslot : s.slotAt A.idSlot = some slot) (hne : slot.tokens ≠ []) {evicted : List String}
    (halive : ∀ h ∈ evicted, s.Alive h) :
    parseCapture A (s.captureReply A.idSlot (s.snapshot slot) evicted) =
      .ok (capturedHandle A s slot, evicted) := by
  have htokens : (s.snapshot slot).tokens = slot.tokens := rfl
  have hsize : (s.snapshot slot).size ≠ 0 := by
    have := List.length_pos_of_ne_nil (hs.slotAt hslot hne)
    simp only [ManagedState.size, Server.snapshot]
    omega
  unfold parseCapture
  rw [evictedNames_captureReply hs A.idSlot (s.snapshot slot) halive]
  simp [Server.captureReply, Json.get, Json.eqInt, Json.asStr?, Json.asInt?, List.lookup_cons,
    formatHandle_ne_empty, hsize, htokens, capturedHandle, hne]

/-! ## The outcomes -/

/-- The handles that sending a capture now makes the server erase. -/
def reclaimedBy (A : Adapter) (tokens : List ℤ) (w : World) : List String :=
  if w.next.delivery = .notApplied then []
  else if w.sent.server.Accepts A.managedEpoch then
    w.sent.server.captureReclaims A.idSlot tokens
  else []

theorem reclaimedBy_alive {A : Adapter} {tokens : List ℤ} {w : World} {h : String}
    (hmem : h ∈ reclaimedBy A tokens w) : w.sent.server.Alive h := by
  unfold reclaimedBy at hmem
  split_ifs at hmem
  · simp at hmem
  · exact Server.captureReclaims_alive hmem
  · simp at hmem

/-- How `capture_current_state` ends. -/
inductive CaptureRun (A : Adapter) (tokens : List ℤ) (w : World) :
    Except PyError (StateHandle × List String) × World → Prop
  | invalid (e : PyError) (htokens : ¬ ValidTokens tokens) : CaptureRun A tokens w (.error e, w)
  | refused (e : PyError) (hvalid : ValidTokens tokens) (hkeep : reclaimedBy A tokens w = []) :
      CaptureRun A tokens w (.error e,
        w.sent.after (.capture A.managedEpoch A.idSlot tokens) w.next.delivery w.sent.server)
  | unread (e : PyError) (hvalid : ValidTokens tokens)
      (n : ℕ) (hread : w.next.upstream.readTarget n ≠ n ∨ w.next.upstream.readDraft n ≠ n) :
      CaptureRun A tokens w (.error e,
        w.sent.after (.capture A.managedEpoch A.idSlot tokens) w.next.delivery
          (w.sent.server.reclaim (reclaimedBy A tokens w)))
  | lost (e : PyError) (slot : Slot) (hvalid : ValidTokens tokens)
      (hslot : w.sent.server.slotAt A.idSlot = some slot) (htokens : tokens = slot.tokens)
      (hlost : w.next.delivery = .responseLost) :
      CaptureRun A tokens w (.error e,
        w.sent.after (.capture A.managedEpoch A.idSlot tokens) w.next.delivery
          ((w.sent.server.reclaim (reclaimedBy A tokens w)).store (w.sent.server.snapshot slot)))
  | captured (slot : Slot) (hvalid : ValidTokens tokens)
      (hslot : w.sent.server.slotAt A.idSlot = some slot) (htokens : tokens = slot.tokens)
      (hepoch : w.sent.server.epoch = A.managedEpoch) :
      CaptureRun A tokens w
        (.ok (capturedHandle A w.sent.server slot, reclaimedBy A tokens w),
          w.sent.after (.capture A.managedEpoch A.idSlot tokens) .delivered
            ((w.sent.server.reclaim (reclaimedBy A tokens w)).store (w.sent.server.snapshot slot)))

/-- A mutation whose exchange raised raises the same. -/
theorem postManaged_error {A : Adapter} {request : Request} {w w' : World} {e : PyError}
    (h : exchange request w = (.error e, w')) : postManaged A request w = (.error e, w') :=
  bind_of_error h _

theorem captureCurrentState_error {A : Adapter} {tokens : List ℤ} (hvalid : ValidTokens tokens)
    {w w' : World} {e : PyError}
    (h : exchange (.capture A.managedEpoch A.idSlot tokens) w = (.error e, w')) :
    captureCurrentState A tokens w = (.error e, w') := by
  unfold captureCurrentState
  rw [captureTokens_ok hvalid, ofExcept_ok_bind_apply, bind_of_error (postManaged_error h)]

theorem captureCurrentState_ok {A : Adapter} {tokens : List ℤ} (hvalid : ValidTokens tokens)
    {w w' : World} (hw : w.sent.server.WellFormed) {slot : Slot}
    (hslot : w.sent.server.slotAt A.idSlot = some slot) (htokens : tokens = slot.tokens)
    (hepoch : w.sent.server.epoch = A.managedEpoch) {evicted : List String}
    (halive : ∀ h ∈ evicted, w.sent.server.Alive h)
    (h : exchange (.capture A.managedEpoch A.idSlot tokens) w =
      (.ok (w.sent.server.captureReply A.idSlot (w.sent.server.snapshot slot) evicted), w')) :
    captureCurrentState A tokens w = (.ok (capturedHandle A w.sent.server slot, evicted), w') := by
  have hpost : postManaged A (.capture A.managedEpoch A.idSlot tokens) w =
      (.ok (w.sent.server.captureReply A.idSlot (w.sent.server.snapshot slot) evicted), w') := by
    unfold postManaged Transport.postManaged
    rw [bind_of_ok h]
    simp [Server.captureReply, Json.isObject, Json.get, Json.isTrue, Json.eqStr, Json.asStr?,
      List.lookup_cons, hepoch]
  unfold captureCurrentState
  rw [captureTokens_ok hvalid, ofExcept_ok_bind_apply, bind_of_ok hpost,
    parseCapture_captureReply hw hslot (htokens ▸ hvalid.1) halive, ofExcept_ok_bind_apply]
  dsimp only
  rw [if_neg (by simp [capturedHandle, htokens])]
  rfl

theorem capture_run {A : Adapter} (tokens : List ℤ) {w : World} (hw : w.sent.server.WellFormed) :
    CaptureRun A tokens w (captureCurrentState A tokens w) := by
  by_cases hvalid : ValidTokens tokens
  swap
  · obtain ⟨e, he⟩ := captureTokens_error hvalid
    unfold captureCurrentState
    rw [he, ofExcept_error_bind_apply]
    exact .invalid e hvalid
  have hreclaims (happlied : w.next.delivery ≠ .notApplied)
      (haccepts : w.sent.server.Accepts A.managedEpoch) :
      reclaimedBy A tokens w = w.sent.server.captureReclaims A.idSlot tokens := by
    rw [reclaimedBy, if_neg happlied, if_pos haccepts]
  have hcases := exchange_cases (.capture A.managedEpoch A.idSlot tokens) w
  have hserved := w.sent.server.respond_capture w.next A.managedEpoch A.idSlot_lt hvalid.1 hvalid.2
  generalize hrun : exchange (.capture A.managedEpoch A.idSlot tokens) w = r at hcases
  cases hcases with
  | unsent e hunsent =>
    rw [captureCurrentState_error hvalid hrun, ← hunsent]
    exact .refused e hvalid (by rw [reclaimedBy, if_pos hunsent])
  | lost e hlost =>
    rw [captureCurrentState_error hvalid hrun, ← hlost]
    have happlied : w.next.delivery ≠ .notApplied := by simp [hlost]
    rcases hserved with ⟨haccepts, r, houtcome, hrespond⟩ | ⟨hrejects, e', hrespond⟩
    · rw [hrespond]
      have hplan := hreclaims happlied haccepts
      cases houtcome with
      | refused refusal hkeep => exact .refused e hvalid (hplan.trans hkeep)
      | unread refusal n hread =>
        rw [← hplan]
        exact .unread e hvalid n hread
      | stored slot hslot htokens hne =>
        rw [← hplan]
        exact .lost e slot hvalid hslot htokens hlost
    · rw [hrespond]
      exact .refused e hvalid (by rw [reclaimedBy, if_neg happlied, if_neg hrejects])
  | answered hdelivered =>
    have happlied : w.next.delivery ≠ .notApplied := by simp [hdelivered]
    rcases hserved with ⟨haccepts, r, houtcome, hrespond⟩ | ⟨hrejects, e, hrespond⟩
    · rw [hrespond] at hrun
      have hplan := hreclaims happlied haccepts
      cases houtcome with
      | refused refusal hkeep =>
        rw [captureCurrentState_error hvalid hrun, ← hdelivered]
        exact .refused _ hvalid (hplan.trans hkeep)
      | unread refusal n hread =>
        rw [captureCurrentState_error hvalid hrun, ← hplan, ← hdelivered]
        exact .unread _ hvalid n hread
      | stored slot hslot htokens hne =>
        rw [← hplan] at hrun
        rw [captureCurrentState_ok hvalid hw hslot htokens haccepts.2.symm
          (fun h hmem => reclaimedBy_alive hmem) hrun]
        exact .captured slot hvalid hslot htokens haccepts.2.symm
    · rw [hrespond] at hrun
      rw [captureCurrentState_error hvalid hrun, ← hdelivered]
      exact .refused _ hvalid (by rw [reclaimedBy, if_neg happlied, if_neg hrejects])

/-- What a capture request that failed for the client has done to the server. -/
inductive FailedCapture (A : Adapter) (tokens : List ℤ) (w : World) : Server → Prop
  | refused (hkeep : reclaimedBy A tokens w = []) : FailedCapture A tokens w w.sent.server
  | unread (n : ℕ)
      (hread : w.next.upstream.readTarget n ≠ n ∨ w.next.upstream.readDraft n ≠ n) :
      FailedCapture A tokens w (w.sent.server.reclaim (reclaimedBy A tokens w))
  | lost (slot : Slot) (hslot : w.sent.server.slotAt A.idSlot = some slot)
      (htokens : tokens = slot.tokens) (hne : slot.tokens ≠ [])
      (hlost : w.next.delivery = .responseLost) :
      FailedCapture A tokens w
        ((w.sent.server.reclaim (reclaimedBy A tokens w)).store (w.sent.server.snapshot slot))

/-- A failed capture sent no request, or one that ended in one of three ways. -/
theorem capture_failed {A : Adapter} {tokens : List ℤ} {w w' : World} {e : PyError}
    (hw : w.server.WellFormed) (h : captureCurrentState A tokens w = (.error e, w')) :
    (w' = w ∧ ¬ ValidTokens tokens) ∨ ValidTokens tokens ∧ ∃ server,
      w' = w.sent.after (.capture A.managedEpoch A.idSlot tokens) w.next.delivery server ∧
      FailedCapture A tokens w server := by
  have hrun := capture_run (A := A) tokens (World.sent_wellFormed hw)
  rw [h] at hrun
  generalize hr : ((Except.error e, w') :
    Except PyError (StateHandle × List String) × World) = r at hrun
  cases hrun with
  | invalid e' hinvalid => exact Or.inl ⟨(Prod.mk.inj hr).2, hinvalid⟩
  | refused e' hvalid hkeep => exact Or.inr ⟨hvalid, _, (Prod.mk.inj hr).2, .refused hkeep⟩
  | unread e' hvalid n hread => exact Or.inr ⟨hvalid, _, (Prod.mk.inj hr).2, .unread n hread⟩
  | lost e' slot hvalid hslot htokens hlost =>
    exact Or.inr ⟨hvalid, _, (Prod.mk.inj hr).2,
      .lost slot hslot htokens (htokens ▸ hvalid.1) hlost⟩
  | captured => cases hr

/-- A capture that returned stored a state under the next name and reports what it erased. -/
theorem capture_returned {A : Adapter} {tokens : List ℤ} {w w' : World} {state : StateHandle}
    {evicted : List String} (hw : w.server.WellFormed)
    (h : captureCurrentState A tokens w = (.ok (state, evicted), w')) :
    ∃ slot, w.sent.server.slotAt A.idSlot = some slot ∧ tokens = slot.tokens ∧ slot.tokens ≠ [] ∧
      w.sent.server.epoch = A.managedEpoch ∧ state = capturedHandle A w.sent.server slot ∧
      evicted = reclaimedBy A tokens w ∧
      w' = w.sent.after (.capture A.managedEpoch A.idSlot tokens) .delivered
        ((w.sent.server.reclaim (reclaimedBy A tokens w)).store (w.sent.server.snapshot slot)) := by
  have hrun := capture_run (A := A) tokens (World.sent_wellFormed hw)
  rw [h] at hrun
  generalize hr : ((Except.ok (state, evicted), w') :
    Except PyError (StateHandle × List String) × World) = r at hrun
  cases hrun with
  | invalid | refused | unread | lost => cases hr
  | captured slot hvalid hslot htokens hepoch =>
    simp only [Prod.mk.injEq, Except.ok.injEq] at hr
    exact ⟨slot, hslot, htokens, htokens ▸ hvalid.1, hepoch, hr.1.1, hr.1.2, hr.2⟩

/-- The store after a capture, by names. -/
theorem Server.stateOf_captured {s : Server} (hs : s.WellFormed) (evicted : List String)
    (state : ManagedState) (h : String) :
    ((s.reclaim evicted).store state).stateOf h =
      if h = formatHandle s.nextHandle then some state
      else if h ∈ evicted then none else s.stateOf h := by
  rw [stateOf_store state (hs.reclaim evicted).fresh, stateOf_reclaim]
  rfl

theorem Server.alive_captured {s : Server} (hs : s.WellFormed) (evicted : List String)
    (state : ManagedState) {h : String} :
    ((s.reclaim evicted).store state).Alive h ↔
      h = formatHandle s.nextHandle ∨ s.Alive h ∧ h ∉ evicted := by
  rw [alive_iff, stateOf_captured hs, alive_iff]
  split_ifs <;> simp_all

theorem Server.alive_reclaim {s : Server} {evicted : List String} {h : String} :
    (s.reclaim evicted).Alive h ↔ s.Alive h ∧ h ∉ evicted := by
  rw [alive_iff, stateOf_reclaim, alive_iff]
  split_ifs <;> simp_all

theorem Server.wellFormed_captured {s : Server} (hs : s.WellFormed) (evicted : List String)
    {idSlot : ℤ} {slot : Slot} (hslot : s.slotAt idSlot = some slot) (hne : slot.tokens ≠ []) :
    ((s.reclaim evicted).store (s.snapshot slot)).WellFormed :=
  (hs.reclaim evicted).store ⟨hne, hs.slotAt hslot hne⟩

/-- A failed capture removes only what it reclaims, and at most adds the next name. -/
theorem FailedCapture.alive_iff {A : Adapter} {tokens : List ℤ} {w : World} {server : Server}
    (hw : w.sent.server.WellFormed) (h : FailedCapture A tokens w server) {name : String}
    (hname : name ≠ formatHandle w.sent.server.nextHandle) :
    server.Alive name ↔ w.sent.server.Alive name ∧ name ∉ reclaimedBy A tokens w := by
  cases h with
  | refused hkeep => simp [hkeep]
  | unread n hread => exact Server.alive_reclaim
  | lost slot hslot htokens hne hlost => simp [Server.alive_captured hw, hname]

/-- Only a capture whose response was lost fails with its state stored. -/
theorem FailedCapture.stored {A : Adapter} {tokens : List ℤ} {w : World} {server : Server}
    (hw : w.sent.server.WellFormed) (h : FailedCapture A tokens w server)
    (halive : server.Alive (formatHandle w.sent.server.nextHandle)) :
    w.next.delivery = .responseLost ∧ server.nextHandle ≠ w.sent.server.nextHandle := by
  cases h with
  | refused hkeep => exact absurd halive hw.fresh
  | unread n hread => exact absurd (Server.alive_reclaim.mp halive).1 hw.fresh
  | lost slot hslot htokens hne hlost => exact ⟨hlost, Nat.succ_ne_self _⟩

end StateBraid.Managed
