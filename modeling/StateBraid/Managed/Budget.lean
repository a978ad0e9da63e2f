import StateBraid.Managed.SessionFacts

/-!
# Refusals and the RAM budget

A capture plans first and deletes last, but both reads of the sequence states come after
the deletion, and the size it plans with leaves the checkpoint payloads out. A refused
request leaves the store alone unless a read falls short after a reclaim; the store stays
within the limit as long as the checkpoints fit in what the plan leaves.
-/

namespace StateBraid.Managed
open Library Policy

namespace Server

/-! ## Bytes in use -/

/-- The bytes in use, handle by handle. -/
theorem managedBytes_eq (s : Server) : s.managedBytes =
    ∑ h ∈ s.states.keys.toFinset, ((s.stateOf h).map ManagedState.size).getD 0 := by
  rw [managedBytes, Dict.sum_items s.states (fun entry => entry.state.size)]
  refine Finset.sum_congr rfl fun h _ => ?_
  rw [stateOf, Option.map_map]
  rfl

theorem SameStore.managedBytes {s s' : Server} (h : SameStore s s') :
    s'.managedBytes = s.managedBytes := by
  rw [managedBytes_eq, managedBytes_eq, h.keys]
  exact Finset.sum_congr rfl fun name _ => by rw [h.stateOf]

theorem managedBytes_reclaim (s : Server) (evicted : List String) :
    ((s.states.items.filter (fun kv => kv.1 ∈ evicted)).map (fun kv => kv.2.state.size)).sum +
      (s.reclaim evicted).managedBytes = s.managedBytes :=
  Dict.sum_filterKeys s.states (fun h => h ∈ evicted) _

theorem managedBytes_reclaim_le (s : Server) (evicted : List String) :
    (s.reclaim evicted).managedBytes ≤ s.managedBytes := by
  have := s.managedBytes_reclaim evicted
  omega

theorem managedBytes_drop_le (s : Server) (handle : String) :
    (s.drop handle).2.managedBytes ≤ s.managedBytes := by
  rw [drop_frame]
  have := Dict.sum_filterKeys s.states (fun h => h = handle) (fun kv => kv.2.state.size)
  change _ + Server.managedBytes { s with states := s.states.erase handle } = s.managedBytes at this
  omega

theorem managedBytes_store {s : Server} (hfresh : ¬ s.Alive (formatHandle s.nextHandle))
    (state : ManagedState) : (s.store state).managedBytes = state.size + s.managedBytes :=
  Dict.sum_emplace _ hfresh _

/-! ## The plan of a capture -/

/-- `ram_limit`, for a limit that is set. -/
def ramLimit (s : Server) : ℕ := s.ramLimitMib.toNat * 1024 * 1024

/-- The bytes that a capture of the slot plans with. -/
def need (s : Server) (slot : Slot) : ℕ :=
  (s.snapshot slot).main.length + (s.snapshot slot).drft.length

/-- A capture of this size goes over the limit. -/
def OverBudget (s : Server) (need : ℕ) : Prop :=
  0 ≤ s.ramLimitMib ∧ s.ramLimit < s.managedBytes + need

/-- By how much. -/
def deficit (s : Server) (need : ℕ) : ℕ := s.managedBytes + need - s.ramLimit

/-- Reclaiming never-restored handles covers the deficit. -/
def Coverable (s : Server) (need : ℕ) : Prop :=
  s.deficit need ≤ (planReclaim (s.deficit need) s.states.items).2

theorem budgetPlan_within {s : Server} {need : ℕ} (h : ¬ s.OverBudget need) :
    s.budgetPlan need = .ok [] := by
  unfold budgetPlan
  split_ifs with hlimit
  · exact if_neg fun hover => h ⟨hlimit, hover⟩
  · rfl

theorem budgetPlan_coverable {s : Server} {need : ℕ} (hover : s.OverBudget need)
    (h : s.Coverable need) :
    s.budgetPlan need = .ok (evictedHandles (s.deficit need) 0 s.states.items) := by
  unfold budgetPlan
  rw [if_pos hover.1]
  exact (if_pos hover.2).trans (if_neg (not_lt.mpr h))

theorem budgetPlan_hopeless {s : Server} {need : ℕ} (hover : s.OverBudget need)
    (h : ¬ s.Coverable need) : ∃ refusal, s.budgetPlan need = .error refusal := by
  unfold budgetPlan
  rw [if_pos hover.1]
  exact ⟨_, (if_pos hover.2).trans (if_pos (not_le.mp h))⟩

/-- The two loops agree: what the plan counts up to the deficit, the erasing frees. -/
theorem evictedHandles_covers {deficit : ℕ} :
    ∀ {items : List (String × ManagedEntry)} {n reclaimed : ℕ}, (items.map Prod.fst).Nodup →
      deficit ≤ (items.foldl (fun acc kv =>
        if kv.2.restored then acc
        else (acc.1 + 1, if acc.2 < deficit then acc.2 + kv.2.state.size else acc.2))
          (n, reclaimed)).2 →
      deficit ≤ reclaimed + ((items.filter (fun kv =>
        kv.1 ∈ evictedHandles deficit reclaimed items)).map (fun kv => kv.2.state.size)).sum
  | [], n, reclaimed, _, h => by simpa using h
  | (handle, entry) :: items, n, reclaimed, hnodup, h => by
    obtain ⟨hnew, hrest⟩ := List.nodup_cons.mp hnodup
    by_cases hdone : deficit ≤ reclaimed
    · omega
    rw [List.foldl_cons] at h
    unfold evictedHandles
    rw [if_pos (by omega)]
    cases hrestored : entry.restored with
    | true =>
      -- a restored entry is skipped, and no later one has its name
      have hskip : handle ∉ evictedHandles deficit reclaimed items :=
        fun hmem => hnew (evictedHandles_subset hmem)
      dsimp only at h
      rw [hrestored, if_pos rfl] at h
      rw [if_pos rfl, List.filter_cons_of_neg (by simpa using hskip)]
      exact evictedHandles_covers hrest h
    | false =>
      have htail : items.filter (fun kv =>
          kv.1 ∈ handle :: evictedHandles deficit (reclaimed + entry.state.size) items) =
          items.filter (fun kv =>
            kv.1 ∈ evictedHandles deficit (reclaimed + entry.state.size) items) := by
        refine List.filter_congr fun kv hkv => ?_
        have hmem : kv.1 ∈ items.map Prod.fst := List.mem_map_of_mem hkv
        have hne : kv.1 ≠ handle := fun heq => hnew (heq ▸ hmem)
        simp [hne]
      dsimp only at h
      rw [hrestored, if_neg Bool.false_ne_true, if_pos (by omega)] at h
      rw [if_neg Bool.false_ne_true, List.filter_cons_of_pos (by simp), htail, List.map_cons,
        List.sum_cons, ← add_assoc]
      exact evictedHandles_covers hrest h

/-- The three ways a plan goes. -/
theorem budgetPlan_ok {s : Server} {need : ℕ} {evicted : List String}
    (hplan : s.budgetPlan need = .ok evicted) :
    ¬ s.OverBudget need ∧ evicted = [] ∨ s.OverBudget need ∧ s.Coverable need ∧
      evicted = evictedHandles (s.deficit need) 0 s.states.items := by
  by_cases hover : s.OverBudget need
  · by_cases hcover : s.Coverable need
    · rw [budgetPlan_coverable hover hcover] at hplan
      exact Or.inr ⟨hover, hcover, (Except.ok.inj hplan).symm⟩
    · obtain ⟨refusal, hrefused⟩ := budgetPlan_hopeless hover hcover
      rw [hrefused] at hplan
      cases hplan
  · rw [budgetPlan_within hover] at hplan
    exact Or.inl ⟨hover, (Except.ok.inj hplan).symm⟩

/-- An accepted plan makes room for what it plans with. -/
theorem budgetPlan_fits {s : Server} {need : ℕ} {evicted : List String}
    (hlimit : 0 ≤ s.ramLimitMib) (hplan : s.budgetPlan need = .ok evicted) :
    (s.reclaim evicted).managedBytes + need ≤ s.ramLimit := by
  have hparts := s.managedBytes_reclaim evicted
  rcases budgetPlan_ok hplan with ⟨hwithin, rfl⟩ | ⟨hover, hcover, rfl⟩
  · have hle := s.managedBytes_reclaim_le []
    have : ¬ s.ramLimit < s.managedBytes + need := fun hlt => hwithin ⟨hlimit, hlt⟩
    omega
  · have hfreed := evictedHandles_covers s.states.keys_nodup hcover
    have hdeficit : s.deficit need = s.managedBytes + need - s.ramLimit := rfl
    have := hover.2
    omega

/-- A plan that covers a deficit reclaims something. -/
theorem evictedHandles_ne_nil {s : Server} {need : ℕ} (hover : s.OverBudget need)
    (hcover : s.Coverable need) : evictedHandles (s.deficit need) 0 s.states.items ≠ [] := by
  intro hnil
  have hfreed := evictedHandles_covers s.states.keys_nodup hcover
  have hdeficit : s.deficit need = s.managedBytes + need - s.ramLimit := rfl
  have := hover.2
  rw [hnil] at hfreed
  simp at hfreed
  omega

/-! ## Tasks -/

/-- The handler takes the task as a capture of this slot, whose prompt is the expected one. -/
structure CapturesSlot (s : Server) (action : CacheAction) (slot : Slot) : Prop where
  accepts : s.Accepts action.epoch
  captures : action.action = "capture"
  slotAt : s.slotAt action.idSlot = some slot
  tokens : action.expectedTokens = slot.tokens
  nonempty : slot.tokens ≠ []

/-- Both sequence states are read in full. -/
def ReadsAll (s : Server) (up : Upstream) (slot : Slot) : Prop :=
  up.readTarget (s.snapshot slot).main.length = (s.snapshot slot).main.length ∧
    (s.draftContext = true →
      up.readDraft (s.snapshot slot).drft.length = (s.snapshot slot).drft.length)

/-- What a task does to the store: nothing, a drop, a reclaim whose capture then fails, or
a reclaim and a new state. -/
inductive TaskOutcome (s : Server) (up : Upstream) (action : CacheAction) :
    Except Refusal Json × Server → Prop
  | kept (answer : Except Refusal Json) (server : Server) (hsame : SameStore s server)
      (hmib : server.ramLimitMib = s.ramLimitMib)
      (hstores : ∀ slot evicted, s.CapturesSlot action slot →
        s.budgetPlan (s.need slot) = .ok evicted → False) :
      TaskOutcome s up action (answer, server)
  | dropped (hstores : ∀ slot, ¬ s.CapturesSlot action slot) :
      TaskOutcome s up action (s.drop action.handle)
  | unread (refusal : Refusal) (slot : Slot) (evicted : List String)
      (hcaptures : s.CapturesSlot action slot) (hplan : s.budgetPlan (s.need slot) = .ok evicted)
      (hread : ¬ s.ReadsAll up slot) :
      TaskOutcome s up action (.error refusal, s.reclaim evicted)
  | stored (reply : Json) (slot : Slot) (evicted : List String)
      (hcaptures : s.CapturesSlot action slot) (hplan : s.budgetPlan (s.need slot) = .ok evicted)
      (hread : s.ReadsAll up slot) :
      TaskOutcome s up action (.ok reply, (s.reclaim evicted).store (s.snapshot slot))

theorem restore_ramLimitMib (s : Server) (up : Upstream) (idSlot : ℤ) (slot : Slot)
    (handle : String) : (s.restore up idSlot slot handle).2.ramLimitMib = s.ramLimitMib := by
  unfold restore
  split
  · rfl
  · dsimp only
    split_ifs <;> rfl

theorem capture_taskOutcome {s : Server} {action : CacheAction} {slot : Slot}
    (haccepts : s.Accepts action.epoch) (hcapture : action.action = "capture")
    (hslot : s.slotAt action.idSlot = some slot) (up : Upstream) :
    TaskOutcome s up action (s.capture up action.idSlot slot action.expectedTokens) := by
  have hunique {other : Slot} (h : s.CapturesSlot action other) : other = slot :=
    Option.some.inj (h.slotAt.symm.trans hslot)
  unfold capture
  split_ifs with hempty hlength htokens
  · refine .kept _ _ (.refl s) rfl fun other _ h _ => h.nonempty ?_
    rw [hunique h]
    exact List.length_eq_zero_iff.mp hempty
  · refine .kept _ _ (.refl s) rfl fun other _ h _ => hlength ?_
    rw [h.tokens, hunique h]
  · refine .kept _ _ (.refl s) rfl fun other _ h _ => htokens ?_
    rw [h.tokens, hunique h]
  have hcaptures : s.CapturesSlot action slot :=
    ⟨haccepts, hcapture, hslot, not_not.mp htokens, fun hnil => hempty (by simp [hnil])⟩
  dsimp only
  split
  · rename_i refusal hbudget
    refine .kept _ _ (.refl s) rfl fun other evicted h hplan => ?_
    rw [hunique h, need, hbudget] at hplan
    cases hplan
  · rename_i evicted hbudget
    split_ifs with htarget hdraft
    · exact .unread _ slot evicted hcaptures hbudget fun hread => htarget hread.1
    · exact .unread _ slot evicted hcaptures hbudget fun hread => hdraft.2 (hread.2 hdraft.1)
    · refine .stored _ slot evicted hcaptures hbudget ⟨not_not.mp htarget, fun hcontext => ?_⟩
      by_contra hshort
      exact hdraft ⟨hcontext, hshort⟩

theorem processTask_outcome (s : Server) (up : Upstream) (action : CacheAction) :
    TaskOutcome s up action (s.processTask up action) := by
  have hother (haction : action.action ≠ "capture") (slot : Slot) : ¬ s.CapturesSlot action slot :=
    fun h => haction h.captures
  unfold processTask
  by_cases henabled : s.enabled = false
  · rw [if_pos henabled]
    refine .kept _ _ (.refl s) rfl fun slot _ h _ => ?_
    simp [h.accepts.1] at henabled
  by_cases hlist : action.action = "list"
  · rw [if_neg henabled, if_pos hlist]
    exact .kept _ _ (.refl s) rfl fun slot _ h _ => hother (by simp [hlist]) slot h
  by_cases hepoch : action.epoch ≠ s.epoch
  · rw [if_neg henabled, if_neg hlist, if_pos hepoch]
    exact .kept _ _ (.refl s) rfl fun slot _ h _ => hepoch h.accepts.2
  by_cases hdrop : action.action = "drop"
  · rw [if_neg henabled, if_neg hlist, if_neg hepoch, if_pos hdrop]
    exact .dropped (hother (by simp [hdrop]))
  rw [if_neg henabled, if_neg hlist, if_neg hepoch, if_neg hdrop]
  cases hslot : s.slotAt action.idSlot with
  | none =>
    refine .kept _ _ (.refl s) rfl fun slot _ h _ => ?_
    rw [h.slotAt] at hslot
    cases hslot
  | some slot =>
    dsimp only
    split_ifs with hclear hcapture hrestore
    · exact .kept _ _ (sameStore_setSlot s _ _) rfl fun slot _ h _ => hother (by simp [hclear]) slot h
    · exact capture_taskOutcome ⟨by simpa using henabled, not_not.mp hepoch⟩ hcapture hslot up
    · exact .kept _ _ (sameStore_restore s up _ _ _) (restore_ramLimitMib s up _ _ _)
        fun slot _ h _ => hother (by simp [hrestore]) slot h
    · exact .kept _ _ (.refl s) rfl fun slot _ h _ => hother hcapture slot h

/-! ## Refusals -/

/-- The task is a capture over the limit that reclaiming can make room for, and a read of
its slot falls short. -/
def FallsShort (s : Server) (up : Upstream) (action : CacheAction) : Prop :=
  ∃ slot, s.CapturesSlot action slot ∧ s.OverBudget (s.need slot) ∧ s.Coverable (s.need slot) ∧
    ¬ s.ReadsAll up slot

/-- A task answered with an error leaves the handles and their states as they were, unless
it is a capture that reclaims and then falls short in a read; then it never does. -/
theorem task_error_keeps_iff (s : Server) (up : Upstream) (action : CacheAction) :
    ((∃ refusal, (s.processTask up action).1 = .error refusal) →
      ∀ h, (s.processTask up action).2.stateOf h = s.stateOf h) ↔ ¬ s.FallsShort up action := by
  have houtcome := s.processTask_outcome up action
  generalize s.processTask up action = r at houtcome
  cases houtcome with
  | kept answer server hsame hmib hstores =>
    refine iff_of_true (fun _ h => hsame.stateOf h) ?_
    rintro ⟨slot, hcaptures, hover, hcover, -⟩
    exact hstores slot _ hcaptures (budgetPlan_coverable hover hcover)
  | dropped hstores =>
    refine iff_of_true ?_ fun ⟨slot, hcaptures, _⟩ => hstores slot hcaptures
    rintro ⟨refusal, herror⟩ h
    unfold drop at herror ⊢
    split at herror
    · rfl
    · cases herror
  | unread refusal slot evicted hcaptures hplan hread =>
    rcases budgetPlan_ok hplan with ⟨hwithin, rfl⟩ | ⟨hover, hcover, rfl⟩
    · refine iff_of_true (fun _ h => by simp) ?_
      rintro ⟨other, hother, hover, -⟩
      obtain rfl : other = slot :=
        Option.some.inj (hother.slotAt.symm.trans hcaptures.slotAt)
      exact hwithin hover
    · refine iff_of_false (fun hkeeps => ?_) (not_not.mpr ⟨slot, hcaptures, hover, hcover, hread⟩)
      obtain ⟨h, hmem⟩ := List.exists_mem_of_ne_nil _ (evictedHandles_ne_nil hover hcover)
      obtain ⟨st, hst⟩ := alive_iff.mp (evictedHandles_subset hmem)
      have hsame := hkeeps ⟨refusal, rfl⟩ h
      rw [stateOf_reclaim, if_pos hmem, hst] at hsame
      cases hsame
  | stored reply slot evicted hcaptures hplan hread =>
    refine iff_of_true (fun ⟨refusal, herror⟩ => by cases herror) ?_
    rintro ⟨other, hother, -, -, hshort⟩
    obtain rfl : other = slot := Option.some.inj (hother.slotAt.symm.trans hcaptures.slotAt)
    exact hshort hread

/-! ## The RAM budget -/

/-- What happens to a server within one epoch: tasks, and executions that change a slot. -/
inductive Input
  | task (up : Upstream) (action : CacheAction)
  | slotChanged (idSlot : ℤ) (slot : Slot)

/-- One input. -/
def serve (s : Server) : Input → Server
  | .task up action => (s.processTask up action).2
  | .slotChanged idSlot slot => s.setSlot idSlot slot

/-- Handle names are numbered below the counter. -/
def Numbered (s : Server) : Prop := ∀ h, s.Alive h → ∃ n < s.nextHandle, h = formatHandle n

theorem Numbered.fresh {s : Server} (h : s.Numbered) : ¬ s.Alive (formatHandle s.nextHandle) := by
  intro halive
  obtain ⟨n, hn, heq⟩ := h _ halive
  exact absurd (formatHandle_injective heq) (by omega)

/-- A store with fewer handles, and a counter no lower, is numbered. -/
theorem Numbered.mono {s s' : Server} (h : s.Numbered) (halive : ∀ h, s'.Alive h → s.Alive h)
    (hnext : s.nextHandle ≤ s'.nextHandle) : s'.Numbered := by
  intro name hname
  obtain ⟨n, hn, heq⟩ := h name (halive name hname)
  exact ⟨n, lt_of_lt_of_le hn hnext, heq⟩

theorem Numbered.reclaim {s : Server} (h : s.Numbered) (evicted : List String) :
    (s.reclaim evicted).Numbered := h.mono (fun _ halive => (alive_reclaim.mp halive).1) le_rfl

theorem Numbered.store {s : Server} (h : s.Numbered) (state : ManagedState) :
    (s.store state).Numbered := by
  intro name halive
  rcases (alive_store h.fresh state).mp halive with hself | hold
  · exact ⟨s.nextHandle, Nat.lt_succ_self _, hself⟩
  · obtain ⟨n, hn, heq⟩ := h name hold
    exact ⟨n, Nat.lt_succ_of_lt hn, heq⟩

theorem Numbered.serve {s : Server} (h : s.Numbered) (input : Input) :
    (s.serve input).Numbered := by
  cases input with
  | slotChanged idSlot slot => exact h
  | task up action =>
    have houtcome := s.processTask_outcome up action
    rw [Server.serve]
    generalize s.processTask up action = r at houtcome
    cases houtcome with
    | kept answer server hsame =>
      refine h.mono (fun name halive => ?_) hsame.nextHandle.ge
      rwa [Alive, ← hsame.keys]
    | dropped =>
      rw [drop_frame]
      exact h.mono (fun name halive => (Dict.mem_keys_erase.mp halive).1) le_rfl
    | unread => exact h.reclaim _
    | stored => exact (h.reclaim _).store _

theorem serve_ramLimitMib (s : Server) (input : Input) :
    (s.serve input).ramLimitMib = s.ramLimitMib := by
  cases input with
  | slotChanged => rfl
  | task up action =>
    have houtcome := s.processTask_outcome up action
    rw [serve]
    generalize s.processTask up action = r at houtcome
    cases houtcome with
    | kept answer server hsame hmib => exact hmib
    | dropped => rw [drop_frame]
    | unread | stored => rfl

/-- The checkpoint payloads of a capture that is stored fit in what its plan leaves. -/
def CheckpointsFit (s : Server) : Input → Prop
  | .task up action => ∀ slot evicted, s.CapturesSlot action slot →
      s.budgetPlan (s.need slot) = .ok evicted → s.ReadsAll up slot →
        slot.checkpoints.sum ≤ s.ramLimit - ((s.reclaim evicted).managedBytes + s.need slot)
  | .slotChanged .. => True

theorem size_snapshot (s : Server) (slot : Slot) :
    (s.snapshot slot).size = s.need slot + slot.checkpoints.sum := rfl

/-- One input keeps the store within the limit exactly when the checkpoints fit. -/
theorem serve_within_iff {s : Server} (hnumbered : s.Numbered) (hlimit : 0 ≤ s.ramLimitMib)
    (hwithin : s.managedBytes ≤ s.ramLimit) (input : Input) :
    (s.serve input).managedBytes ≤ s.ramLimit ↔ s.CheckpointsFit input := by
  cases input with
  | slotChanged idSlot slot => exact iff_of_true hwithin trivial
  | task up action =>
    have houtcome := s.processTask_outcome up action
    rw [serve, CheckpointsFit]
    generalize s.processTask up action = r at houtcome
    cases houtcome with
    | kept answer server hsame hmib hstores =>
      refine iff_of_true ?_ fun slot evicted hcaptures hplan => (hstores slot _ hcaptures hplan).elim
      rw [hsame.managedBytes]
      exact hwithin
    | dropped hstores =>
      exact iff_of_true ((s.managedBytes_drop_le _).trans hwithin)
        fun slot _ hcaptures => (hstores slot hcaptures).elim
    | unread refusal slot evicted hcaptures hplan hread =>
      refine iff_of_true ((s.managedBytes_reclaim_le _).trans hwithin)
        fun other _ hother _ hreads => (hread ?_).elim
      rwa [Option.some.inj (hcaptures.slotAt.symm.trans hother.slotAt)]
    | stored reply slot evicted hcaptures hplan hread =>
      have hfits := budgetPlan_fits hlimit hplan
      have hfresh : ¬ (s.reclaim evicted).Alive (formatHandle (s.reclaim evicted).nextHandle) :=
        (hnumbered.reclaim evicted).fresh
      dsimp only
      rw [managedBytes_store hfresh, size_snapshot]
      constructor
      · intro hafter other evicted' hother hplan' _
        obtain rfl := Option.some.inj (hcaptures.slotAt.symm.trans hother.slotAt)
        obtain rfl := Except.ok.inj (hplan.symm.trans hplan')
        omega
      · intro hfit
        have := hfit slot evicted hcaptures hplan hread
        omega

/-- From an empty store, as long as the checkpoints of every capture fit, the bytes in use
stay within the limit; they next exceed it exactly with a capture whose checkpoints do
not fit. -/
theorem ram_budget_bounds {s t : Server} (hempty : s.states = .empty) (hlimit : 0 ≤ s.ramLimitMib)
    (hrun : Run serve CheckpointsFit s t) :
    t.managedBytes ≤ s.ramLimit ∧
      ∀ input, (t.serve input).managedBytes ≤ s.ramLimit ↔ t.CheckpointsFit input := by
  have hinvariant : t.Numbered ∧ t.ramLimitMib = s.ramLimitMib ∧ t.managedBytes ≤ s.ramLimit := by
    refine Run.invariant (I := fun t : Server => t.Numbered ∧ t.ramLimitMib = s.ramLimitMib ∧
      t.managedBytes ≤ s.ramLimit) ⟨fun h halive => ?_, rfl, ?_⟩ ?_ hrun
    · simp [Alive, hempty] at halive
    · simp [managedBytes, hempty]
    · rintro t input ⟨hnumbered, hmib, hwithin⟩ hfit
      have hsame : t.ramLimit = s.ramLimit := by rw [ramLimit, hmib, ramLimit]
      refine ⟨hnumbered.serve input, (serve_ramLimitMib t input).trans hmib, ?_⟩
      rw [← hsame] at hwithin ⊢
      exact (serve_within_iff hnumbered (hmib ▸ hlimit) hwithin input).mpr hfit
  obtain ⟨hnumbered, hmib, hwithin⟩ := hinvariant
  have hsame : t.ramLimit = s.ramLimit := by rw [ramLimit, hmib, ramLimit]
  refine ⟨hwithin, fun input => ?_⟩
  rw [← hsame] at hwithin ⊢
  exact serve_within_iff hnumbered (hmib ▸ hlimit) hwithin input

end Server

/-! ## A short read, and a large checkpoint -/

namespace Sample

def captureTask : CacheAction := ⟨"capture", 0, "", "epoch-1", [1, 2]⟩

/-- The sample server after one capture: its only state is over a mebibyte large. -/
def filled : Server := server.server.serve (.task .complete captureTask)

/-- The target state cannot be read. -/
def unreadable : Upstream := { Upstream.complete with readTarget := fun _ => 0 }

/-- The same slot without its checkpoint. -/
def plainSlot : Slot := ⟨[1, 2], [], [0], [], 8⟩

def plain : Server := server.server.serve (.slotChanged 0 plainSlot)

theorem plain_fits : plain.CheckpointsFit (.task .complete captureTask) := by
  intro slot evicted hcaptures _ _
  have hslot : slot = plainSlot := Option.some.inj (hcaptures.slotAt.symm.trans rfl)
  rw [hslot]
  exact Nat.zero_le _

end Sample

open Sample

/-- The capture is answered with an error, and the state it reclaimed is gone. -/
theorem unread_capture_reclaims :
    (filled.processTask unreadable captureTask).1 =
        .error ⟨"Unable to capture target sequence state", .server⟩ ∧
      filled.Alive "sbm1-0000000000000001" ∧
      ¬ (filled.processTask unreadable captureTask).2.Alive "sbm1-0000000000000001" ∧
      ¬ ((∃ refusal, (filled.processTask unreadable captureTask).1 = .error refusal) →
        ∀ h, (filled.processTask unreadable captureTask).2.stateOf h = filled.stateOf h) := by
  have herror : (filled.processTask unreadable captureTask).1 =
      .error ⟨"Unable to capture target sequence state", .server⟩ := rfl
  have halive : filled.Alive "sbm1-0000000000000001" := by decide +kernel
  have hdead : ¬ (filled.processTask unreadable captureTask).2.Alive "sbm1-0000000000000001" := by
    decide +kernel
  refine ⟨herror, halive, hdead, fun hkeeps => hdead ?_⟩
  rw [Server.alive_iff, hkeeps ⟨_, herror⟩, ← Server.alive_iff]
  exact halive

/-- A slot without checkpoints is captured within the limit. -/
theorem plain_within_limit :
    (plain.serve (.task .complete captureTask)).managedBytes ≤ server.server.ramLimit := by
  have hplain : Run Server.serve Server.CheckpointsFit server.server plain :=
    .next (i := Server.Input.slotChanged 0 plainSlot) .start trivial
  exact (Server.ram_budget_bounds rfl (by decide) (.next hplain plain_fits)).1

/-- One capture of a slot with a checkpoint of a mebibyte exceeds a limit of a mebibyte. -/
theorem checkpoint_exceeds_limit :
    server.server.states = .empty ∧ 0 ≤ server.server.ramLimitMib ∧
      server.server.ramLimit < filled.managedBytes := by
  refine ⟨rfl, by decide, by decide +kernel⟩

end StateBraid.Managed
