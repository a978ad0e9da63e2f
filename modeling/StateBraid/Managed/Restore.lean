import StateBraid.Library.Exec
import StateBraid.Managed.Budget

/-!
# Restoring a state into a slot

The restore handler step by step, with what a write into a sequence leaves behind when it
falls short. Every exit behind the first clear clears once more, and the mark is set last,
so that no partial state outlives the task; seen from outside, the handler is the one
of `Server.processTask`.
-/
namespace StateBraid.Managed
open Library

/-- `llama_state_seq_set_data_ext` in the two contexts: for the data and what the sequence
holds, how many bytes it accepts and what the sequence holds then. -/
structure SequenceWrites where
  setTarget : List UInt8 → List UInt8 → ℕ × List UInt8
  setDraft : List UInt8 → List UInt8 → ℕ × List UInt8

/-- A write that accepts all bytes leaves the data in the sequence. -/
structure SequenceWrites.Lawful (lib : SequenceWrites) : Prop where
  target : ∀ data content, (lib.setTarget data content).1 = data.length →
    (lib.setTarget data content).2 = data
  draft : ∀ data content, (lib.setDraft data content).1 = data.length →
    (lib.setDraft data content).2 = data

namespace SequenceWrites

/-- A write into the target sequence of a slot. -/
def writeTarget (lib : SequenceWrites) (data : List UInt8) : Exec Refusal Slot ℕ := fun slot =>
  (.ok (lib.setTarget data slot.target).1, { slot with target := (lib.setTarget data slot.target).2 })

def writeDraft (lib : SequenceWrites) (data : List UInt8) : Exec Refusal Slot ℕ := fun slot =>
  (.ok (lib.setDraft data slot.draft).1, { slot with draft := (lib.setDraft data slot.draft).2 })

/-- Clear the slot and send the error. -/
def clearAndFail (refusal : Refusal) : Exec Refusal Slot Unit := do
  Exec.modify Slot.promptClear
  Exec.raise refusal

/-- The writes into the draft sequence, if a draft state was captured. -/
def fillDraft (lib : SequenceWrites) (draftContext : Bool) (state : ManagedState) :
    Exec Refusal Slot Unit :=
  if state.drft = [] then pure ()
  else if draftContext = false then
    clearAndFail ⟨"Managed state requires an unavailable draft context", .invalidRequest⟩
  else do
    let nDft ← lib.writeDraft state.drft
    if nDft ≠ state.drft.length then
      clearAndFail ⟨"Unable to restore draft sequence state", .server⟩
    else pure ()

/-- What a restore does to the slot: clear it, write both sequences, set the prompt. -/
def fillSlot (lib : SequenceWrites) (draftContext : Bool) (state : ManagedState) :
    Exec Refusal Slot Unit := do
  Exec.modify Slot.promptClear
  let nTgt ← lib.writeTarget state.main
  if nTgt ≠ state.main.length then
    clearAndFail ⟨"Unable to restore target sequence state", .server⟩
  else do
    lib.fillDraft draftContext state
    Exec.modify fun slot => { slot with tokens := state.tokens, checkpoints := state.checkpoints }

/-- The handler of a `restore` task. -/
def restoreTask (lib : SequenceWrites) (action : CacheAction) : Exec Refusal Server Json :=
  fun s =>
    if s.enabled = false then
      (.error ⟨"StateBraid managed cache is disabled", .notSupported⟩, s)
    else if action.epoch ≠ s.epoch then
      (.error ⟨"Invalid or stale StateBraid managed-cache epoch", .invalidRequest⟩, s)
    else
      match s.slotAt action.idSlot with
      | none => (.error ⟨"Invalid slot ID", .invalidRequest⟩, s)
      | some slot =>
        match s.states.get? action.handle with
        | none => (.error ⟨"Unknown StateBraid managed-cache handle", .invalidRequest⟩, s)
        | some entry =>
          if entry.state.tokens.length > slot.nCtx then
            (.error ⟨"Managed prompt state does not fit in the slot context", .invalidRequest⟩, s)
          else
            match lib.fillSlot s.draftContext entry.state slot with
            | (.error refusal, slot) => (.error refusal, s.setSlot action.idSlot slot)
            | (.ok _, slot) =>
              (.ok (.obj [("success", .bool true), ("epoch", .str s.epoch),
                  ("handle", .str action.handle), ("id_slot", .int action.idSlot),
                  ("n_tokens", .int entry.state.tokens.length),
                  ("n_bytes", .int entry.state.size)]),
                { s.setSlot action.idSlot slot with
                  states := s.states.insert action.handle { entry with restored := true } })

/-! ## The slot -/

/-- The slot after a restore that succeeded. -/
def filledSlot (state : ManagedState) (nCtx : ℕ) : Slot :=
  ⟨state.tokens, state.checkpoints, state.main, state.drft, nCtx⟩

/-- The byte counts that the two writes of a restore return. -/
def counts (lib : SequenceWrites) (state : ManagedState) : Upstream where
  readTarget := id
  readDraft := id
  acceptTarget _ := (lib.setTarget state.main []).1
  acceptDraft _ := (lib.setDraft state.drft []).1

/-- How filling a slot ends: cleared with an error, or filled. -/
inductive FillOutcome (lib : SequenceWrites) (draftContext : Bool) (state : ManagedState)
    (slot : Slot) : Except Refusal Unit × Slot → Prop
  | targetShort (h : (lib.counts state).acceptTarget state.main.length ≠ state.main.length) :
      FillOutcome lib draftContext state slot
        (.error ⟨"Unable to restore target sequence state", .server⟩, slot.promptClear)
  | noContext (htarget : (lib.counts state).acceptTarget state.main.length = state.main.length)
      (hdraft : state.drft ≠ []) (hcontext : draftContext = false) :
      FillOutcome lib draftContext state slot
        (.error ⟨"Managed state requires an unavailable draft context", .invalidRequest⟩,
          slot.promptClear)
  | draftShort (htarget : (lib.counts state).acceptTarget state.main.length = state.main.length)
      (hdraft : state.drft ≠ []) (hcontext : draftContext = true)
      (h : (lib.counts state).acceptDraft state.drft.length ≠ state.drft.length) :
      FillOutcome lib draftContext state slot
        (.error ⟨"Unable to restore draft sequence state", .server⟩, slot.promptClear)
  | filled (htarget : (lib.counts state).acceptTarget state.main.length = state.main.length)
      (hdraft : state.drft ≠ [] → draftContext = true ∧
        (lib.counts state).acceptDraft state.drft.length = state.drft.length) :
      FillOutcome lib draftContext state slot (.ok (), filledSlot state slot.nCtx)

theorem fillSlot_outcome {lib : SequenceWrites} (hlib : lib.Lawful) (draftContext : Bool)
    (state : ManagedState) (slot : Slot) :
    FillOutcome lib draftContext state slot (lib.fillSlot draftContext state slot) := by
  have hwrite : lib.writeTarget state.main slot.promptClear =
      (.ok (lib.setTarget state.main []).1,
        { slot.promptClear with target := (lib.setTarget state.main []).2 }) := rfl
  unfold fillSlot
  rw [Exec.modify_bind_apply, Exec.bind_of_ok hwrite]
  by_cases htarget : (lib.setTarget state.main []).1 = state.main.length
  · rw [if_neg (not_not.mpr htarget), hlib.target _ _ htarget]
    -- the target sequence is complete; the draft decides
    by_cases hdraft : state.drft = []
    · have hnone : lib.fillDraft draftContext state = pure () := by rw [fillDraft, if_pos hdraft]
      have hfilled : FillOutcome lib draftContext state slot (.ok (), filledSlot state slot.nCtx) :=
        .filled htarget fun hne => absurd hdraft hne
      rw [hnone]
      rwa [filledSlot, hdraft] at hfilled
    cases hcontext : draftContext with
    | false =>
      rw [fillDraft, if_neg hdraft, if_pos rfl]
      exact .noContext htarget hdraft rfl
    | true =>
      have hdraftWrite : lib.writeDraft state.drft { slot.promptClear with target := state.main } =
          (.ok (lib.setDraft state.drft []).1,
            { slot.promptClear with
              target := state.main
              draft := (lib.setDraft state.drft []).2 }) := rfl
      rw [fillDraft, if_neg hdraft, if_neg (by decide)]
      by_cases hshort : (lib.setDraft state.drft []).1 = state.drft.length
      · rw [Exec.bind_apply, Exec.bind_of_ok hdraftWrite, if_neg (not_not.mpr hshort),
          hlib.draft _ _ hshort]
        exact .filled htarget fun _ => ⟨rfl, hshort⟩
      · rw [Exec.bind_apply, Exec.bind_of_ok hdraftWrite, if_pos hshort]
        exact .draftShort htarget hdraft rfl hshort
  · rw [if_pos htarget]
    exact .targetShort htarget

/-! ## The task -/

/-- How a restore task ends: refused with nothing changed, failed with the slot cleared,
or with the slot filled and the handle marked. -/
inductive RestoreOutcome (s : Server) (action : CacheAction) : Except Refusal Json × Server → Prop
  | refused (refusal : Refusal) : RestoreOutcome s action (.error refusal, s)
  | cleared (refusal : Refusal) (slot : Slot) (hslot : s.slotAt action.idSlot = some slot) :
      RestoreOutcome s action (.error refusal, s.setSlot action.idSlot slot.promptClear)
  | restored (reply : Json) (slot : Slot) (entry : ManagedEntry)
      (hslot : s.slotAt action.idSlot = some slot)
      (hget : s.states.get? action.handle = some entry) :
      RestoreOutcome s action (.ok reply,
        { s.setSlot action.idSlot (filledSlot entry.state slot.nCtx) with
          states := s.states.insert action.handle { entry with restored := true } })

theorem restoreTask_outcome {lib : SequenceWrites} (hlib : lib.Lawful) (s : Server)
    (action : CacheAction) : RestoreOutcome s action (lib.restoreTask action s) := by
  unfold restoreTask
  split_ifs
  · exact .refused _
  · exact .refused _
  split
  · exact .refused _
  rename_i slot hslot
  split
  · exact .refused _
  rename_i entry hget
  split_ifs
  · exact .refused _
  have hfill := fillSlot_outcome hlib s.draftContext entry.state slot
  generalize lib.fillSlot s.draftContext entry.state slot = r at hfill
  cases hfill with
  | targetShort | noContext | draftShort => exact .cleared _ slot hslot
  | filled => exact .restored _ slot entry hslot hget

/-- Seen from outside, the handler is the restore of `Server.processTask`. -/
theorem restoreTask_refines {lib : SequenceWrites} (hlib : lib.Lawful) (s : Server)
    {action : CacheAction} (haction : action.action = "restore") :
    ∃ up, lib.restoreTask action s = s.processTask up action := by
  cases henabled : s.enabled with
  | false => exact ⟨.complete, by simp [restoreTask, Server.processTask, henabled]⟩
  | true =>
    by_cases hepoch : action.epoch = s.epoch
    · cases hslot : s.slotAt action.idSlot with
      | none => exact ⟨.complete, by
          simp [restoreTask, Server.processTask, henabled, hepoch, haction, hslot]⟩
      | some slot =>
        cases hget : s.states.get? action.handle with
        | none => exact ⟨.complete, by
            simp [restoreTask, Server.processTask_restore ⟨henabled, hepoch⟩ haction hslot,
              Server.restore, henabled, hepoch, hslot, hget]⟩
        | some entry =>
          refine ⟨counts lib entry.state, ?_⟩
          rw [Server.processTask_restore ⟨henabled, hepoch⟩ haction hslot]
          have hfill := fillSlot_outcome hlib s.draftContext entry.state slot
          rw [restoreTask, if_neg (by simp [henabled]), if_neg (not_not.mpr hepoch)]
          simp only [hslot, hget, Server.restore]
          generalize lib.fillSlot s.draftContext entry.state slot = r at hfill ⊢
          by_cases hfits : entry.state.tokens.length > slot.nCtx
          · rw [if_pos hfits, if_pos hfits]
          rw [if_neg hfits, if_neg hfits]
          cases hfill with
          | targetShort h => rw [if_pos h]
          | noContext htarget hdraft hcontext =>
            rw [if_neg (not_not.mpr htarget), if_pos ⟨hdraft, hcontext⟩]
          | draftShort htarget hdraft hcontext h =>
            rw [if_neg (not_not.mpr htarget), if_neg (by simp [hcontext]), if_pos ⟨hdraft, h⟩]
          | filled htarget hdraft =>
            rw [if_neg (not_not.mpr htarget), if_neg fun h => by simp [(hdraft h.1).1] at h,
              if_neg fun h => h.2 (hdraft h.1).2]
            rfl
    · exact ⟨.complete, by simp [restoreTask, Server.processTask, henabled, haction, hepoch]⟩

/-- What a restore leaves behind. A reply means that the slot holds exactly the handle's
prompt and sequence states, and that the handle is there and marked; an error means that
the slot is as it was or empty, and every mark as it was. No other slot or handle is
touched. -/
structure AllOrNothing (s : Server) (action : CacheAction) (r : Except Refusal Json × Server) :
    Prop where
  success : ∀ reply, r.1 = .ok reply → ∃ entry slot,
    s.states.get? action.handle = some entry ∧
      r.2.states.get? action.handle = some { entry with restored := true } ∧
      r.2.slotAt action.idSlot = some slot ∧ slot.tokens = entry.state.tokens ∧
      slot.checkpoints = entry.state.checkpoints ∧ slot.target = entry.state.main ∧
      slot.draft = entry.state.drft
  failure : ∀ refusal, r.1 = .error refusal → r.2.states = s.states ∧
    (r.2 = s ∨ r.2.slotAt action.idSlot = (s.slotAt action.idSlot).map Slot.promptClear)
  otherSlots : ∀ idSlot, idSlot ≠ action.idSlot → r.2.slotAt idSlot = s.slotAt idSlot
  otherHandles : ∀ handle, handle ≠ action.handle →
    r.2.states.get? handle = s.states.get? handle

theorem slotAt_setSlot {s : Server} {idSlot : ℤ} {slot : Slot} (h : s.slotAt idSlot = some slot)
    (new : Slot) (other : ℤ) :
    (s.setSlot idSlot new).slotAt other = if other = idSlot then some new else s.slotAt other := by
  unfold Server.slotAt at h ⊢
  split_ifs at h with hneg
  obtain ⟨hlt, -⟩ := List.getElem?_eq_some_iff.mp h
  simp only [Server.setSlot, List.getElem?_set]
  split_ifs <;> first | rfl | omega

theorem RestoreOutcome.allOrNothing {s : Server} {action : CacheAction}
    {r : Except Refusal Json × Server} (houtcome : RestoreOutcome s action r) :
    AllOrNothing s action r := by
  cases houtcome with
  | refused refusal =>
    exact ⟨nofun, fun _ _ => ⟨rfl, Or.inl rfl⟩, fun _ _ => rfl, fun _ _ => rfl⟩
  | cleared refusal slot hslot =>
    have hset := slotAt_setSlot hslot slot.promptClear
    refine ⟨nofun, fun _ _ => ⟨rfl, Or.inr ?_⟩, fun idSlot hne => ?_, fun _ _ => rfl⟩
    · rw [hset, if_pos rfl, hslot]
      rfl
    · rw [hset, if_neg hne]
  | restored reply slot entry hslot hget =>
    have hset := slotAt_setSlot hslot (filledSlot entry.state slot.nCtx)
    refine ⟨fun _ _ => ⟨entry, filledSlot entry.state slot.nCtx, hget, ?_, ?_, rfl, rfl, rfl, rfl⟩,
      nofun, fun idSlot hne => ?_, fun handle hne => ?_⟩
    · rw [Dict.get?_insert, if_pos rfl]
    · exact (hset _).trans (if_pos rfl)
    · exact (hset _).trans (if_neg hne)
    · rw [Dict.get?_insert, if_neg hne]

/-- A restore is all or nothing for its slot, whatever the writes do when they fall short, and
what it does is what the task of the server does. -/
theorem restore_all_or_nothing {lib : SequenceWrites} (hlib : lib.Lawful) (s : Server)
    (action : CacheAction) :
    AllOrNothing s action (lib.restoreTask action s) ∧
      (action.action = "restore" → ∃ up, lib.restoreTask action s = s.processTask up action) :=
  ⟨(restoreTask_outcome hlib s action).allOrNothing, restoreTask_refines hlib s⟩

/-- Writes that accept so many bytes and keep those. -/
def limited (room : ℕ) : SequenceWrites where
  setTarget data _ := (min room data.length, data.take room)
  setDraft data _ := (min room data.length, data.take room)

theorem limited_lawful (room : ℕ) : (limited room).Lawful where
  target _ _ h := List.take_of_length_le (min_eq_right_iff.mp h)
  draft _ _ h := List.take_of_length_le (min_eq_right_iff.mp h)

end SequenceWrites

open Sample SequenceWrites

namespace Sample

/-- Restore the captured state into its slot. -/
def restoreAction : CacheAction := ⟨"restore", 0, "sbm1-0000000000000001", "epoch-1", []⟩

end Sample

/-- With room for one byte the captured state is restored, with room for none it is not. -/
theorem restore_all_or_nothing_limited :
    (AllOrNothing filled restoreAction ((limited 1).restoreTask restoreAction filled) ∧
      ∃ up, (limited 1).restoreTask restoreAction filled = filled.processTask up restoreAction) ∧
    AllOrNothing filled restoreAction ((limited 0).restoreTask restoreAction filled) ∧
      ∃ up, (limited 0).restoreTask restoreAction filled = filled.processTask up restoreAction :=
  have hroom := restore_all_or_nothing (limited_lawful 1) filled restoreAction
  have hnone := restore_all_or_nothing (limited_lawful 0) filled restoreAction
  ⟨⟨hroom.1, hroom.2 rfl⟩, hnone.1, hnone.2 rfl⟩

end StateBraid.Managed
