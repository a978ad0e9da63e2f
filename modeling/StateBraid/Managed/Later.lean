import StateBraid.Managed.Budget

/-!
# A server later in its epoch

Whatever requests an epoch serves, a name that was given out resolves to the state it was
given out for, until it resolves to none: names are numbered and no number is used twice.
-/

namespace StateBraid.Managed
open Library Policy LlamaCpp Exec

namespace Server

/-- A server some requests later: the epoch is the same, the numbering went on, and a name
already given out still resolves to its state or to none. -/
structure Later (s s' : Server) : Prop where
  epoch : s'.epoch = s.epoch
  nextHandle : s.nextHandle ≤ s'.nextHandle
  stateOf : ∀ n < s.nextHandle, s'.stateOf (formatHandle n) = s.stateOf (formatHandle n) ∨
    s'.stateOf (formatHandle n) = none
  wellFormed : s'.WellFormed

namespace Later

variable {s s' s'' : Server}

theorem refl (h : s.WellFormed) : Later s s := ⟨rfl, le_rfl, fun _ _ => Or.inl rfl, h⟩

theorem trans (h : Later s s') (h' : Later s' s'') : Later s s'' where
  epoch := h'.epoch.trans h.epoch
  nextHandle := h.nextHandle.trans h'.nextHandle
  stateOf n hn := by
    rcases h'.stateOf n (lt_of_lt_of_le hn h.nextHandle) with heq | hnone
    · rw [heq]
      exact h.stateOf n hn
    · exact Or.inr hnone
  wellFormed := h'.wellFormed

theorem of_sameStore (hsame : SameStore s s') (hwell : s'.WellFormed) : Later s s' :=
  ⟨hsame.epoch, hsame.nextHandle.ge, fun _ _ => Or.inl (hsame.stateOf _), hwell⟩

theorem drop (h : s.WellFormed) (handle : String) : Later s (s.drop handle).2 where
  epoch := by rw [drop_frame]
  nextHandle := by rw [drop_frame]
  stateOf _ _ := by
    rw [stateOf_drop]
    split_ifs
    · exact Or.inr rfl
    · exact Or.inl rfl
  wellFormed := h.drop handle

theorem reclaim (h : s.WellFormed) (evicted : List String) : Later s (s.reclaim evicted) where
  epoch := rfl
  nextHandle := le_rfl
  stateOf _ _ := by
    rw [stateOf_reclaim]
    split_ifs
    · exact Or.inr rfl
    · exact Or.inl rfl
  wellFormed := h.reclaim evicted

/-- A capture stores under a name that was not given out. -/
theorem stored (h : s.WellFormed) (evicted : List String) {idSlot : ℤ} {slot : Slot}
    (hslot : s.slotAt idSlot = some slot) (hne : slot.tokens ≠ []) :
    Later s ((s.reclaim evicted).store (s.snapshot slot)) where
  epoch := rfl
  nextHandle := Nat.le_succ _
  stateOf n hn := by
    have hname : formatHandle n ≠ formatHandle s.nextHandle := fun heq =>
      absurd (formatHandle_injective heq) (by omega)
    rw [stateOf_captured h, if_neg hname]
    split_ifs
    · exact Or.inr rfl
    · exact Or.inl rfl
  wellFormed := wellFormed_captured h evicted hslot hne

theorem processTask (h : s.WellFormed) (up : Upstream) (action : CacheAction) :
    Later s (s.processTask up action).2 := by
  have hwell := h.processTask up action
  have houtcome := s.processTask_outcome up action
  generalize s.processTask up action = r at houtcome hwell
  cases houtcome with
  | kept answer server hsame => exact of_sameStore hsame hwell
  | dropped => exact drop h _
  | unread refusal slot evicted => exact reclaim h evicted
  | stored reply slot evicted hcaptures =>
    exact stored h evicted hcaptures.slotAt hcaptures.nonempty

theorem post (h : s.WellFormed) (up : Upstream) (data : Json) :
    Later s (s.postStatebraidCache up data).2 :=
  post_state (P := Later s) (refl h) (processTask h up) data

theorem respond (h : s.WellFormed) (x : Exchange) (request : Request) :
    Later s (s.respond x request).2 :=
  respond_state (P := Later s) (refl h) (processTask h x.upstream)
    (fun idSlot slot => of_sameStore (sameStore_setSlot s idSlot slot.val)
      (h.setSlot idSlot slot.val slot.property)) request

end Later

end Server

/-- A world that no restart has reached or will reach, later than this server. -/
def LaterWorld (s : Server) (w : World) : Prop := w.Steady ∧ s.Later w.server

theorem exchange_later (s : Server) (request : Request) :
    Keeps (LaterWorld s) (exchange request) := by
  refine Keeps.of_state fun w ⟨hsteady, hlater⟩ => ?_
  have hsent : w.sent.server = w.server := by rw [hsteady.sent]
  have hscript : ∀ x ∈ w.sent.script, x.restart = none := by
    rw [hsteady.sent]
    exact fun x hx => hsteady x (List.mem_of_mem_tail hx)
  have hcases := exchange_cases request w
  generalize exchange request w = r at hcases ⊢
  cases hcases with
  | unsent => exact ⟨hscript, hsent ▸ hlater⟩
  | answered | lost =>
    refine ⟨hscript, hlater.trans ?_⟩
    rw [hsent]
    exact Server.Later.respond hlater.wellFormed _ _

end StateBraid.Managed
