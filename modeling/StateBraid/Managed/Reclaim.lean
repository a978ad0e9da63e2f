import Mathlib.Data.String.Basic
import StateBraid.Library.Digits
import StateBraid.Library.Selection
import StateBraid.Managed.Budget

/-!
# What a capture reclaims

The planning loop and the erasing loop go through the store in the order of the handle
names, which is the order of the counters while these fit in 64 bits. Both stop at the
shortest run of never-restored handles that covers the deficit, so what is planned is
what is erased.
-/

namespace StateBraid.Managed
open Library Policy

/-! ## The order of handle names -/

theorem hexDigit_strictMonoOn : StrictMonoOn hexDigit (Set.Iio 16) := by
  have hall : ∀ a < 16, ∀ b < 16, a < b → hexDigit a < hexDigit b := by decide
  exact fun a ha b hb hlt => hall a ha b hb hlt

theorem formatHandle_eq (n : ℕ) :
    formatHandle n = "sbm1-" ++ String.ofList (numeral 16 16 hexDigit n) := rfl

/-- Handle names of 64-bit counters are in the order of the counters. -/
theorem formatHandle_lt_iff {m n : ℕ} (hm : m < 2 ^ 64) (hn : n < 2 ^ 64) :
    formatHandle m < formatHandle n ↔ m < n := by
  have hnumeral : numeral 16 16 hexDigit m < numeral 16 16 hexDigit n ↔ m < n :=
    numeral_lt_iff (by norm_num) hexDigit_strictMonoOn (by norm_num; omega) (by norm_num; omega)
  rw [← hnumeral, String.lt_iff_toList_lt, formatHandle_eq, formatHandle_eq, String.toList_append,
    String.toList_append, String.toList_ofList, String.toList_ofList]
  simp

/-! ## The two loops -/

/-- The bytes of these entries. -/
def bytesOf (items : List (String × ManagedEntry)) : ℕ :=
  (items.map (fun kv => kv.2.state.size)).sum

/-- The never-restored entries, in the order of the store. -/
def unusedOf (items : List (String × ManagedEntry)) : List (String × ManagedEntry) :=
  items.filter (fun kv => kv.2.restored = false)

/-- The planning loop stops counting at the deficit, so it reaches it exactly when all the
unused entries together do. -/
theorem planReclaim_covers_iff {deficit : ℕ} (items : List (String × ManagedEntry))
    (n reclaimable : ℕ) :
    deficit ≤ (items.foldl (fun acc kv =>
        if kv.2.restored then acc
        else (acc.1 + 1, if acc.2 < deficit then acc.2 + kv.2.state.size else acc.2))
          (n, reclaimable)).2 ↔
      deficit ≤ reclaimable + bytesOf (unusedOf items) := by
  induction items generalizing n reclaimable with
  | nil => simp [unusedOf, bytesOf]
  | cons kv items ih =>
    rw [List.foldl_cons]
    cases hrestored : kv.2.restored with
    | true => simp [ih, unusedOf, hrestored]
    | false =>
      have hunused : bytesOf (unusedOf (kv :: items)) =
          kv.2.state.size + bytesOf (unusedOf items) := by
        simp [unusedOf, hrestored, bytesOf]
      rw [if_neg Bool.false_ne_true, ih, hunused]
      split_ifs <;> omega

/-- The erasing loop takes the shortest prefix of the unused entries that covers the
deficit. -/
theorem evictedHandles_shortest {deficit : ℕ} (items : List (String × ManagedEntry))
    (reclaimed : ℕ) (hcover : deficit ≤ reclaimed + bytesOf (unusedOf items)) :
    ∃ taken, ShortestPrefix (fun t => deficit ≤ reclaimed + bytesOf t) (unusedOf items) taken ∧
      evictedHandles deficit reclaimed items = taken.map Prod.fst := by
  induction items generalizing reclaimed with
  | nil => exact ⟨[], .nil hcover, rfl⟩
  | cons kv items ih =>
    obtain ⟨handle, entry⟩ := kv
    by_cases hdone : deficit ≤ reclaimed
    · refine ⟨[], .nil (hdone.trans (Nat.le_add_right _ _)), ?_⟩
      rw [evictedHandles, if_neg (not_lt.mpr hdone)]
      rfl
    rw [evictedHandles, if_pos (not_le.mp hdone)]
    cases hrestored : entry.restored with
    | true =>
      have hskip : unusedOf ((handle, entry) :: items) = unusedOf items := by
        simp [unusedOf, hrestored]
      rw [hskip] at hcover ⊢
      exact ih reclaimed hcover
    | false =>
      have hkeep : unusedOf ((handle, entry) :: items) = (handle, entry) :: unusedOf items := by
        simp [unusedOf, hrestored]
      have hbytes (t : List (String × ManagedEntry)) :
          bytesOf ((handle, entry) :: t) = entry.state.size + bytesOf t := by simp [bytesOf]
      rw [hkeep, hbytes, ← add_assoc] at hcover
      obtain ⟨taken, hshortest, hevicted⟩ := ih (reclaimed + entry.state.size) hcover
      refine ⟨(handle, entry) :: taken, ?_, by simp [hevicted]⟩
      rw [hkeep]
      refine .cons (by simpa [bytesOf] using hdone) ?_
      simpa only [hbytes, ← add_assoc] using hshortest

namespace Server

/-- The bytes of a handle's state. -/
def stateBytes (s : Server) (handle : String) : ℕ :=
  ((s.stateOf handle).map ManagedState.size).getD 0

/-- The never-restored handles, in the order of the store. -/
def unusedHandles (s : Server) : List String := (unusedOf s.states.items).map Prod.fst

theorem map_stateBytes (s : Server) {t : List (String × ManagedEntry)} (ht : t ⊆ s.states.items) :
    ((t.map Prod.fst).map s.stateBytes).sum = bytesOf t := by
  rw [List.map_map, bytesOf]
  congr 1
  refine List.map_congr_left fun kv hkv => ?_
  have hget : s.states.get? kv.1 = some kv.2 := Dict.get?_eq_some_iff.mpr (ht hkv)
  simp [stateBytes, stateOf, hget]

theorem unusedOf_subset (items : List (String × ManagedEntry)) : unusedOf items ⊆ items :=
  List.filter_subset_self items

theorem coverable_iff (s : Server) (need : ℕ) :
    s.Coverable need ↔ s.deficit need ≤ (s.unusedHandles.map s.stateBytes).sum := by
  rw [Coverable, planReclaim, planReclaim_covers_iff, Nat.zero_add, unusedHandles,
    s.map_stateBytes (unusedOf_subset _)]

/-- What the plan of a capture over the limit reclaims. -/
theorem budgetPlan_shortest {s : Server} {need : ℕ} (hover : s.OverBudget need)
    (hcover : s.Coverable need) :
    ∃ taken, s.budgetPlan need = .ok taken ∧
      ShortestPrefix (fun t => s.deficit need ≤ (t.map s.stateBytes).sum) s.unusedHandles taken := by
  have hcovered : s.deficit need ≤ 0 + bytesOf (unusedOf s.states.items) := by
    rwa [Coverable, planReclaim, planReclaim_covers_iff] at hcover
  obtain ⟨taken, hshortest, hevicted⟩ := evictedHandles_shortest s.states.items 0 hcovered
  refine ⟨taken.map Prod.fst, by rw [budgetPlan_coverable hover hcover, hevicted],
    hshortest.map fun t ht => ?_⟩
  rw [Nat.zero_add, s.map_stateBytes fun kv hkv => unusedOf_subset _ (ht.subset hkv)]

/-! ## What a task does to the entries -/

/-- The entries after a task: as before, without the dropped handle, with one more restore
mark, without the reclaimed handles, or with a new entry besides. -/
inductive EntryStep (s : Server) (action : CacheAction) : Except Refusal Json × Server → Prop
  | unchanged (answer : Except Refusal Json) (server : Server)
      (hstates : server.states = s.states) (hnext : server.nextHandle = s.nextHandle)
      (hanswer : ∀ reply, answer = .ok reply →
        action.action ≠ "capture" ∧ action.action ≠ "restore") :
      EntryStep s action (answer, server)
  | dropped (haction : action.action = "drop") : EntryStep s action (s.drop action.handle)
  | restored (reply : Json) (server : Server) (entry : ManagedEntry)
      (haction : action.action = "restore") (hget : s.states.get? action.handle = some entry)
      (hstates : server.states = s.states.insert action.handle { entry with restored := true })
      (hnext : server.nextHandle = s.nextHandle) : EntryStep s action (.ok reply, server)
  | unread (refusal : Refusal) (slot : Slot) (evicted : List String)
      (hplan : s.budgetPlan (s.need slot) = .ok evicted) :
      EntryStep s action (.error refusal, s.reclaim evicted)
  | stored (slot : Slot) (evicted : List String) (haction : action.action = "capture")
      (hplan : s.budgetPlan (s.need slot) = .ok evicted) :
      EntryStep s action (.ok (s.captureReply action.idSlot (s.snapshot slot) evicted),
        (s.reclaim evicted).store (s.snapshot slot))

theorem restore_entryStep {s : Server} {action : CacheAction} (haction : action.action = "restore")
    (up : Upstream) (slot : Slot) :
    EntryStep s action (s.restore up action.idSlot slot action.handle) := by
  unfold restore
  split
  · exact .unchanged _ _ rfl rfl nofun
  · rename_i entry hget
    dsimp only
    split_ifs
    · exact .unchanged _ _ rfl rfl nofun
    · exact .unchanged _ _ rfl rfl nofun
    · exact .unchanged _ _ rfl rfl nofun
    · exact .unchanged _ _ rfl rfl nofun
    · exact .restored _ _ entry haction hget rfl rfl

theorem capture_entryStep {s : Server} {action : CacheAction} (haction : action.action = "capture")
    (up : Upstream) (slot : Slot) :
    EntryStep s action (s.capture up action.idSlot slot action.expectedTokens) := by
  unfold capture
  split_ifs
  · exact .unchanged _ _ rfl rfl nofun
  · exact .unchanged _ _ rfl rfl nofun
  · exact .unchanged _ _ rfl rfl nofun
  dsimp only
  split
  · exact .unchanged _ _ rfl rfl nofun
  · rename_i evicted hplan
    split_ifs
    · exact .unread _ slot evicted hplan
    · exact .unread _ slot evicted hplan
    · exact .stored slot evicted haction hplan

theorem processTask_entryStep (s : Server) (up : Upstream) (action : CacheAction) :
    EntryStep s action (s.processTask up action) := by
  unfold processTask
  by_cases henabled : s.enabled = false
  · rw [if_pos henabled]
    exact .unchanged _ _ rfl rfl nofun
  by_cases hlist : action.action = "list"
  · rw [if_neg henabled, if_pos hlist]
    exact .unchanged _ _ rfl rfl fun _ _ => by simp [hlist]
  by_cases hepoch : action.epoch ≠ s.epoch
  · rw [if_neg henabled, if_neg hlist, if_pos hepoch]
    exact .unchanged _ _ rfl rfl nofun
  by_cases hdrop : action.action = "drop"
  · rw [if_neg henabled, if_neg hlist, if_neg hepoch, if_pos hdrop]
    exact .dropped hdrop
  rw [if_neg henabled, if_neg hlist, if_neg hepoch, if_neg hdrop]
  cases s.slotAt action.idSlot with
  | none => exact .unchanged _ _ rfl rfl nofun
  | some slot =>
    dsimp only
    split_ifs with hclear hcapture hrestore
    · exact .unchanged _ _ rfl rfl fun _ _ => by simp [hclear]
    · exact capture_entryStep hcapture up slot
    · exact restore_entryStep hrestore up slot
    · exact .unchanged _ _ rfl rfl nofun

end Server

end StateBraid.Managed
