import StateBraid.Managed.ServerFacts

/-!
# The store's own invariants

Handle names are numbered below the counter, so a capture never meets its own name;
every stored state holds a prompt and a non-empty sequence state. All requests and
restarts keep both.
-/

namespace StateBraid.Managed
open Library Policy

namespace Server

@[simp] theorem stateOf_reclaim (s : Server) (evicted : List String) (h : String) :
    (s.reclaim evicted).stateOf h = if h ∈ evicted then none else s.stateOf h := by
  simp only [reclaim, stateOf, Dict.get?_filterKeys]
  by_cases hmem : h ∈ evicted <;> simp [hmem]

theorem stateOf_store {s : Server} (state : ManagedState)
    (hnew : ¬ s.Alive (formatHandle s.nextHandle)) (h : String) :
    (s.store state).stateOf h =
      if h = formatHandle s.nextHandle then some state else s.stateOf h := by
  simp only [store, stateOf, Dict.get?_emplace _ hnew]
  split_ifs <;> rfl

theorem alive_store {s : Server} (hfresh : ¬ s.Alive (formatHandle s.nextHandle))
    (state : ManagedState) {handle : String} :
    (s.store state).Alive handle ↔ handle = formatHandle s.nextHandle ∨ s.Alive handle := by
  rw [alive_iff, stateOf_store state hfresh, alive_iff]
  split_ifs with hself <;> simp [hself]

/-- A drop erases its handle, and answers with an error exactly when there is none. -/
theorem stateOf_drop (s : Server) (handle h : String) :
    (s.drop handle).2.stateOf h = if h = handle then none else s.stateOf h := by
  unfold drop
  split
  · rename_i hnone
    split_ifs with hself
    · rw [hself, stateOf, hnone]
      rfl
    · rfl
  · simp only [stateOf, Dict.get?_erase]
    split_ifs <;> rfl

theorem drop_frame (s : Server) (handle : String) :
    (s.drop handle).2 = { s with states := s.states.erase handle } := by
  unfold drop
  split
  · rename_i hnone
    rw [Dict.erase_eq_self (Dict.get?_eq_none_iff.mp hnone)]
  · rfl

/-- Names below the counter, and states and slots whose prompts come with data. -/
structure WellFormed (s : Server) : Prop where
  numbered : ∀ {h}, s.Alive h → ∃ n < s.nextHandle, h = formatHandle n
  tokens : ∀ {h st}, s.stateOf h = some st → st.tokens ≠ [] ∧ st.main ≠ []
  slots : ∀ slot ∈ s.slots, slot.tokens ≠ [] → slot.target ≠ []

namespace WellFormed

variable {s : Server}

/-- The next name is not in use. -/
theorem fresh (h : s.WellFormed) : ¬ s.Alive (formatHandle s.nextHandle) := by
  intro halive
  obtain ⟨n, hn, heq⟩ := h.numbered halive
  exact absurd (formatHandle_injective heq) (by omega)

theorem slotAt (h : s.WellFormed) {idSlot : ℤ} {slot : Slot} (hslot : s.slotAt idSlot = some slot)
    (hne : slot.tokens ≠ []) : slot.target ≠ [] := by
  unfold Server.slotAt at hslot
  split at hslot
  · cases hslot
  · exact h.slots slot (List.mem_of_getElem? hslot) hne

theorem setSlot (h : s.WellFormed) (idSlot : ℤ) (slot : Slot)
    (hslot : slot.tokens ≠ [] → slot.target ≠ []) : (s.setSlot idSlot slot).WellFormed where
  numbered := h.numbered
  tokens := h.tokens
  slots := by
    intro other hmem
    rcases List.mem_or_eq_of_mem_set hmem with hold | rfl
    · exact h.slots other hold
    · exact hslot

theorem reclaim (h : s.WellFormed) (evicted : List String) : (s.reclaim evicted).WellFormed where
  numbered := by
    intro name halive
    obtain ⟨st, hst⟩ := alive_iff.mp halive
    rw [stateOf_reclaim] at hst
    split_ifs at hst
    exact h.numbered (alive_iff.mpr ⟨st, hst⟩)
  tokens := by
    intro name st hst
    rw [stateOf_reclaim] at hst
    split_ifs at hst
    exact h.tokens hst
  slots := h.slots

theorem store (h : s.WellFormed) {state : ManagedState}
    (hstate : state.tokens ≠ [] ∧ state.main ≠ []) :
    (s.store state).WellFormed where
  numbered := by
    intro name halive
    rcases (alive_store h.fresh state).mp halive with hself | hold
    · exact ⟨s.nextHandle, Nat.lt_succ_self _, hself⟩
    · obtain ⟨n, hn, heq⟩ := h.numbered hold
      exact ⟨n, Nat.lt_succ_of_lt hn, heq⟩
  tokens := by
    intro name st hst
    rw [stateOf_store state h.fresh] at hst
    split_ifs at hst
    · cases hst
      exact hstate
    · exact h.tokens hst
  slots := h.slots

theorem drop (h : s.WellFormed) (handle : String) : (s.drop handle).2.WellFormed where
  numbered := by
    intro name halive
    obtain ⟨st, hst⟩ := alive_iff.mp halive
    rw [stateOf_drop] at hst
    split_ifs at hst
    rw [drop_frame]
    exact h.numbered (alive_iff.mpr ⟨st, hst⟩)
  tokens := by
    intro name st hst
    rw [stateOf_drop] at hst
    split_ifs at hst
    exact h.tokens hst
  slots := by
    rw [drop_frame]
    exact h.slots

theorem clear (h : s.WellFormed) (idSlot : ℤ) (slot : Slot) :
    (s.clear idSlot slot).2.WellFormed := h.setSlot idSlot _ (by simp [Slot.promptClear])

theorem restore (h : s.WellFormed) (up : Upstream) (idSlot : ℤ) (slot : Slot) (handle : String) :
    (s.restore up idSlot slot handle).2.WellFormed := by
  unfold Server.restore
  split
  · exact h
  · rename_i entry hentry
    have hstate : s.stateOf handle = some entry.state := by simp [stateOf, hentry]
    have hcleared := h.setSlot idSlot slot.promptClear (by simp [Slot.promptClear])
    dsimp only
    split_ifs
    · exact h
    · exact hcleared
    · exact hcleared
    · exact hcleared
    · have hslot := h.setSlot idSlot
        ⟨entry.state.tokens, entry.state.checkpoints, entry.state.main, entry.state.drft,
          slot.nCtx⟩ (fun _ => (h.tokens hstate).2)
      have hkeys : (s.states.insert handle { entry with restored := true }).keys = s.states.keys :=
        Dict.keys_insert_of_mem _ (Dict.mem_keys_of_get? hentry)
      refine ⟨?_, ?_, hslot.slots⟩
      · intro name halive
        rw [Alive, hkeys] at halive
        exact h.numbered halive
      · intro name st hst
        simp only [stateOf, Dict.get?_insert] at hst
        split_ifs at hst with hself
        · cases hst
          exact h.tokens hstate
        · exact h.tokens hst

theorem capture (h : s.WellFormed) {up : Upstream} {idSlot : ℤ} {expectedTokens : List ℤ}
    {r : Except Refusal Json × Server} (hr : CaptureOutcome s up idSlot expectedTokens r) :
    r.2.WellFormed := by
  cases hr with
  | refused => exact h
  | unread => exact h.reclaim _
  | stored slot hslot htokens hne => exact (h.reclaim _).store ⟨hne, h.slotAt hslot hne⟩

theorem processTask (h : s.WellFormed) (up : Upstream) (action : CacheAction) :
    (s.processTask up action).2.WellFormed := by
  unfold Server.processTask
  cases hslot : s.slotAt action.idSlot with
  | none =>
    dsimp only
    split_ifs
    · exact h
    · exact h
    · exact h
    · exact h.drop _
    · exact h
  | some slot =>
    dsimp only
    split_ifs
    · exact h
    · exact h
    · exact h
    · exact h.drop _
    · exact h.clear _ _
    · exact h.capture (capture_outcome hslot)
    · exact h.restore _ _ _ _
    · exact h

theorem respond (h : s.WellFormed) (x : Exchange) (request : Request) :
    (s.respond x request).2.WellFormed :=
  respond_state (P := WellFormed) h (h.processTask x.upstream)
    (fun _ slot => h.setSlot _ _ slot.property) request

/-- A restarted server has nothing to be wrong about. -/
theorem restart (s : Server) (epoch : String) : (s.restart epoch).WellFormed where
  numbered halive := by simp [Alive, Server.restart] at halive
  tokens hst := by simp [Server.restart, stateOf] at hst
  slots := by
    intro slot hmem
    obtain ⟨old, -, rfl⟩ := List.mem_map.mp hmem
    simp [Slot.promptClear]

end WellFormed

/-- A state of the store is not empty. -/
theorem WellFormed.size_pos {s : Server} (h : s.WellFormed) {name : String} {st : ManagedState}
    (hst : s.stateOf name = some st) : 0 < st.tokens.length ∧ 0 < st.size := by
  obtain ⟨htokens, hmain⟩ := h.tokens hst
  have := List.length_pos_of_ne_nil hmain
  exact ⟨List.length_pos_of_ne_nil htokens, by unfold ManagedState.size; omega⟩

end Server

end StateBraid.Managed
