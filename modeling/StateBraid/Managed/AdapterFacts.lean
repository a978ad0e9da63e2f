import StateBraid.Managed.Adapter
import StateBraid.Managed.StoreFacts

/-!
# What the adapter's methods do

Two kinds of facts. A method keeps every invariant of the world that its requests keep.
And in a world without restarts a method only tidies up: the registry stays, and the
states of the server stay except where a drop was meant to remove them.
-/

namespace StateBraid.Managed
open Library Policy LlamaCpp Exec

/-! ## One exchange -/

namespace World

/-- The exchange that the next request meets. -/
def next (w : World) : Exchange := w.script.headD .normal

/-- The world when the next request is sent: a restart comes first. -/
def sent (w : World) : World := w.advance w.next

/-- The world after a request that left this server. -/
def after (w : World) (request : Request) (delivery : Delivery) (server : Server) : World :=
  { w with server := server }.note
    (.exchanged request delivery w.server server w.bound w.pending)

end World

/-- The three ways an exchange goes. -/
inductive Exchanged (request : Request) (w : World) : Except PyError Json × World → Prop
  | unsent (e : PyError) (hunsent : w.next.delivery = .notApplied) :
      Exchanged request w (.error e, w.sent.after request .notApplied w.sent.server)
  | answered (hdelivered : w.next.delivery = .delivered) :
      Exchanged request w ((w.sent.server.respond w.next request).1,
        w.sent.after request .delivered (w.sent.server.respond w.next request).2)
  | lost (e : PyError) (hlost : w.next.delivery = .responseLost) :
      Exchanged request w (.error e,
        w.sent.after request .responseLost (w.sent.server.respond w.next request).2)

theorem exchange_cases (request : Request) (w : World) :
    Exchanged request w (exchange request w) := by
  unfold exchange
  dsimp only
  split
  · rename_i hdelivery
    exact .unsent _ hdelivery
  · rename_i hdelivery
    exact .answered hdelivery
  · rename_i hdelivery
    exact .lost _ hdelivery

/-- A delivered request gets the server's answer. -/
theorem exchange_delivered {request : Request} {w : World} (h : w.next.delivery = .delivered) :
    exchange request w = ((w.sent.server.respond w.next request).1,
      w.sent.after request .delivered (w.sent.server.respond w.next request).2) := by
  unfold exchange
  simp only [World.next] at h
  simp only [h]
  rfl

/-- An answer is the server's, to a delivered request. -/
theorem exchange_ok {request : Request} {w w' : World} {reply : Json}
    (h : exchange request w = (.ok reply, w')) :
    (w.sent.server.respond w.next request).1 = .ok reply ∧
      w' = w.sent.after request .delivered (w.sent.server.respond w.next request).2 := by
  have hcases := exchange_cases request w
  rw [h] at hcases
  generalize hr : ((Except.ok reply, w') : Except PyError Json × World) = r at hcases
  cases hcases with
  | unsent | lost => simp at hr
  | answered =>
    rw [Prod.mk.injEq] at hr
    exact ⟨hr.1.symm, hr.2⟩

theorem World.sent_script (w : World) : w.sent.script = w.script.tail := by
  unfold World.sent World.advance
  split
  · rfl
  dsimp only
  split <;> rfl

theorem World.sent_wellFormed {w : World} (h : w.server.WellFormed) :
    w.sent.server.WellFormed := by
  unfold World.sent World.advance
  split
  · exact h
  · dsimp only
    split
    · exact h
    · exact Server.WellFormed.restart _ _

/-- Every request leaves a well-formed server, over a restart or not. -/
theorem exchange_wellFormed (request : Request) :
    Keeps (fun w => w.server.WellFormed) (exchange request) := by
  refine Keeps.of_state fun w h => ?_
  have hsent := World.sent_wellFormed h
  have hcases := exchange_cases request w
  generalize exchange request w = r at hcases ⊢
  cases hcases with
  | unsent => exact hsent
  | answered | lost => exact hsent.respond _ _

/-! ## Methods keep what their requests keep -/

section Keeps

variable {I : World → Prop} {A : Adapter}

theorem readStore_keeps {pinned : Option String} (h : Keeps I (exchange .list)) :
    Keeps I (readStore pinned) := by
  refine h.bind fun payload => ?_
  split
  · exact Keeps.raise _
  · split
    · exact Keeps.raise _
    · split
      · exact Keeps.raise _
      · split
        · exact Keeps.raise _
        · exact (Keeps.ofExcept _).bind fun _ => Keeps.pure _

theorem managedStore_keeps (h : Keeps I (exchange .list)) : Keeps I (managedStore A) :=
  readStore_keeps h

theorem postManaged_keeps {request : Request} (h : Keeps I (exchange request)) :
    Keeps I (postManaged A request) := by
  refine h.bind fun response => ?_
  split
  · exact Keeps.raise _
  · split
    · exact Keeps.raise _
    · split
      · exact Keeps.raise _
      · exact Keeps.pure _

theorem clearLiveSlot_keeps (h : Keeps I (exchange (.clear A.managedEpoch A.idSlot))) :
    Keeps I (clearLiveSlot A) := by
  refine (postManaged_keeps h).bind fun response => ?_
  split
  · exact Keeps.raise _
  · split
    · exact Keeps.raise _
    · split
      · exact Keeps.raise _
      · exact Keeps.pure _

theorem restoreState_keeps {state : StateHandle}
    (h : Keeps I (exchange (.restore A.managedEpoch A.idSlot state.handle))) :
    Keeps I (restoreState A state) := by
  refine (Keeps.ofExcept _).bind fun _ => (postManaged_keeps h).bind fun response => ?_
  split
  · exact Keeps.raise _
  · split
    · exact Keeps.raise _
    · exact Keeps.pure _

theorem dropState_keeps (state : StateHandle) (hlist : Keeps I (exchange .list))
    (hdrop : Keeps I (exchange (.drop A.managedEpoch state.handle))) :
    Keeps I (dropState A state) := by
  refine (Keeps.ofExcept _).bind fun _ => Keeps.bind (Keeps.tryExcept ?_ fun e => ?_) ?_
  · exact (postManaged_keeps hdrop).bind fun _ => Keeps.pure _
  · refine (managedStore_keeps hlist).bind fun store => ?_
    split
    · exact Keeps.raise _
    · exact Keeps.pure _
  · intro response
    split
    · exact Keeps.pure _
    · split
      · exact Keeps.raise _
      · split
        · exact Keeps.raise _
        · exact Keeps.pure _

theorem captureCurrentState_keeps (tokens : List ℤ) (hlist : Keeps I (exchange .list))
    (hdrop : ∀ handle, Keeps I (exchange (.drop A.managedEpoch handle)))
    (hcapture : Keeps I (exchange (.capture A.managedEpoch A.idSlot tokens))) :
    Keeps I (captureCurrentState A tokens) := by
  refine (Keeps.ofExcept _).bind fun _ => (postManaged_keeps hcapture).bind fun response =>
    (Keeps.ofExcept _).bind fun captured => ?_
  dsimp only
  split
  · exact (dropState_keeps captured.1 hlist (hdrop captured.1.handle)).bind fun _ => Keeps.raise _
  · exact Keeps.pure _

/-- The checks of a lookup, before any server. -/
theorem requireReferenceSource_keeps {T : Transport} (h : Keeps I (T.send .props)) :
    Keeps I T.requireReferenceSource := by
  refine h.bind fun props => ?_
  split
  · exact Keeps.raise _
  · split
    · exact Keeps.raise _
    · split
      · split
        · exact Keeps.raise _
        · exact Keeps.pure _
      · exact Keeps.raise _

theorem readSlots_keeps {T : Transport} (h : Keeps I (T.send .slots)) : Keeps I T.readSlots := by
  refine h.bind fun payload => ?_
  split
  · split
    · exact Keeps.pure _
    · exact Keeps.raise _
  · exact Keeps.raise _

theorem requireExactSlot_keeps {T : Transport} {idSlot totalSlots : ℤ}
    (h : Keeps I (T.send .slots)) : Keeps I (T.requireExactSlot idSlot totalSlots) := by
  refine (readSlots_keeps h).bind fun slots => ?_
  dsimp only
  split
  · exact Keeps.raise _
  · split
    · exact Keeps.raise _
    · exact Keeps.pure _

theorem lookupAfterPolicy_keeps {T : Transport} {tokens : List ℤ}
    (hprops : Keeps I (T.send .props)) (hslots : Keeps I (T.send .slots))
    (hcompletion : Keeps I (T.send (.completion tokens A.idSlot))) :
    Keeps I (T.lookupAfterPolicy A tokens) := by
  refine (requireReferenceSource_keeps hprops).bind fun totalSlots =>
    (requireExactSlot_keeps hslots).bind fun _ => ?_
  split
  · exact Keeps.raise _
  · refine hcompletion.bind fun response => ?_
    split
    · exact Keeps.raise _
    · exact Keeps.ofExcept _

end Keeps

end StateBraid.Managed
