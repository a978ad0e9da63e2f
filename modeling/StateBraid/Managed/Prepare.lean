import StateBraid.Managed.Calls

/-!
# What `prepare` can meet

`prepare` clears the slot and restores the binding it selects. When every binding is alive
it can fail in many ways, but the server never answers that the handle is unknown.
-/

namespace StateBraid.Managed
open Library Policy Coordinator LlamaCpp Exec

/-- The answer to a restore of a handle that is not in the store. -/
def unknownHandle : PyError := .httpError "Unknown StateBraid managed-cache handle"

theorem httpResult_error_ne {message : String} {type : ErrorType}
    (h : message ≠ "Unknown StateBraid managed-cache handle") :
    httpResult (.error ⟨message, type⟩) ≠ .error unknownHandle := by
  simpa [httpResult, unknownHandle] using h

theorem httpResult_ok_ne (reply : Json) : httpResult (.ok reply) ≠ .error unknownHandle := by
  simp [httpResult]

/-- A restore of a handle that is alive may fail, but not with this answer. -/
theorem Server.restore_ne {s : Server} {handle : String} (halive : s.Alive handle)
    (up : Upstream) (idSlot : ℤ) (slot : Slot) :
    httpResult (s.restore up idSlot slot handle).1 ≠ .error unknownHandle := by
  obtain ⟨entry, hentry⟩ := Dict.mem_keys_iff.mp halive
  unfold restore
  rw [hentry]
  dsimp only
  split_ifs <;> first | exact httpResult_ok_ne _ | exact httpResult_error_ne (by decide)

theorem Server.post_ne {s : Server} (up : Upstream) {data : Json} {action : CacheAction}
    (hparse : parseAction data = .ok action)
    (haction : action.action = "clear" ∨ action.action = "restore" ∧ s.Alive action.handle) :
    httpResult (s.postStatebraidCache up data).1 ≠ .error unknownHandle := by
  unfold postStatebraidCache
  rw [hparse]
  dsimp only
  split_ifs with henabled
  · exact httpResult_error_ne (by decide)
  unfold processTask
  rw [if_neg henabled]
  rcases haction with haction | ⟨haction, halive⟩ <;> rw [haction, if_neg (by decide)] <;>
    split_ifs <;> try first | exact httpResult_error_ne (by decide) | contradiction
  · split
    · exact httpResult_error_ne (by decide)
    · exact httpResult_ok_ne _
  · split
    · exact httpResult_error_ne (by decide)
    · exact restore_ne halive _ _ _

/-- The computation raises only what is not `unknownHandle`, and keeps `I` when it returns. -/
def Knows {σ α : Type} (I : σ → Prop) (m : Exec PyError σ α) : Prop :=
  Triple I m (fun _ => I) (fun e _ => e ≠ unknownHandle)

namespace Knows

variable {σ α β : Type} {I : σ → Prop}

theorem bind {m : Exec PyError σ α} {f : α → Exec PyError σ β} (hm : Knows I m)
    (hf : ∀ a, Knows I (f a)) : Knows I (m >>= f) := Triple.bind hm hf

theorem pure (a : α) : Knows I (pure a : Exec PyError σ α) := Triple.skip a

theorem raise {e : PyError} (he : e ≠ unknownHandle) : Knows I (Exec.raise e : Exec PyError σ α) :=
  fun _ _ => he

variable {w₀ : World} {A : Adapter}

theorem exchange (hw : w₀.Steady) {request : Request} (hpassive : Server.Passive request)
    (hserver : ∀ w : World, Tidies (fun _ => False) w₀ w →
      (w.sent.server.respond w.next request).1 ≠ .error unknownHandle) :
    Knows (Tidies (fun _ => False) w₀) (exchange request) := by
  intro w ht
  have hkeeps := passive_keeps hw hpassive w ht
  have hcases : ∀ e, (Managed.exchange request w).1 = .error e → e ≠ unknownHandle := by
    intro e h
    unfold Managed.exchange at h
    dsimp only at h
    split at h
    · cases h
      simp [unknownHandle]
    · rintro rfl
      exact hserver w ht h
    · cases h
      simp [unknownHandle]
  rcases hrun : Managed.exchange request w with ⟨⟨e⟩ | ⟨reply⟩, w'⟩ <;> rw [hrun] at hkeeps hcases
  · exact hcases e rfl
  · exact hkeeps

theorem postManaged {I : World → Prop} {request : Request}
    (h : Knows I (Managed.exchange request)) :
    Knows I (postManaged A request) := by
  refine h.bind fun response => ?_
  split_ifs <;> first | exact Knows.raise (by simp [unknownHandle]) | exact Knows.pure _

theorem clearLiveSlot (hw : w₀.Steady) : Knows (Tidies (fun _ => False) w₀) (clearLiveSlot A) := by
  refine (Knows.postManaged (Knows.exchange hw (by trivial) fun w _ => ?_)).bind fun response => ?_
  · have hpost := Server.post_ne (s := w.sent.server) w.next.upstream
      (Server.parseAction_clear_of_lt A.managedEpoch A.idSlot_lt) (Or.inl rfl)
    exact hpost
  · split
    · exact Knows.raise (by simp [unknownHandle])
    · split
      · exact Knows.raise (by simp [unknownHandle])
      · split_ifs <;> first | exact Knows.raise (by simp [unknownHandle]) | exact Knows.pure _

theorem restoreState (hw : w₀.Steady) {state : StateHandle}
    (hbinding : stateBinding A state = .ok ()) (halive : w₀.server.Alive state.handle) :
    Knows (Tidies (fun _ => False) w₀) (restoreState A state) := by
  unfold Managed.restoreState Transport.restoreState
  rw [hbinding]
  refine (Knows.pure ()).bind fun _ => (Knows.postManaged (Knows.exchange hw (by trivial)
    fun w ht => ?_)).bind fun response => ?_
  · have hsent : w.sent.server.Alive state.handle := by
      rw [(ht.steady hw).sent]
      exact ht.alive_of_not_may halive id
    have hpost := Server.post_ne w.next.upstream
      (Server.parseAction_restore_of_lt A.managedEpoch state.handle A.idSlot_lt)
      (Or.inr ⟨rfl, hsent⟩)
    exact hpost
  · split_ifs <;> first | exact Knows.raise (by simp [unknownHandle]) | exact Knows.pure _

end Knows

/-- A handle that `prepare` selects is known to the server when every binding is alive. -/
theorem prepare_knows {A : Adapter} {c : PromptCache} (hc : Coherent A c)
    (hsteady : c.backend.Steady) (halive : ∀ h ∈ c.backend.bound, c.backend.server.Alive h)
    (tokens : List ℤ) {e : PyError} (h : (prepare A tokens c).1 = .error e) :
    e ≠ unknownHandle := by
  rcases hrun : prepare A tokens c with ⟨r, c'⟩
  rw [hrun] at h
  subst h
  unfold prepare Transport.prepare at hrun
  split at hrun
  · cases hrun
    simp [unknownHandle]
  -- clearing the slot leaves the store as it was
  have hclear := Knows.clearLiveSlot (A := A) hsteady c.backend (.refl _)
  rcases hfirst : clearLiveSlot A c.backend with ⟨⟨e'⟩ | ⟨n⟩, w⟩ <;> rw [hfirst] at hclear
  · rw [bind_of_error (onBackend_of hfirst)] at hrun
    cases hrun
    exact hclear
  rw [bind_of_ok (onBackend_of hfirst), gets_bind_apply] at hrun
  generalize bestCandidate _ = best? at hrun
  rcases best? with _ | best
  · cases hrun
  dsimp only at hrun
  rcases hrestore : restoreLive A best.key w with ⟨⟨e'⟩ | ⟨state⟩, w'⟩
  swap
  · rw [bind_of_ok (onBackend_of hrestore)] at hrun
    cases hrun
  rw [bind_of_error (onBackend_of hrestore)] at hrun
  cases hrun
  unfold restoreLive Transport.restoreLive at hrestore
  rcases bind_eq_error hrestore with hkey | ⟨u, w₁, hkey, hrest⟩
  · unfold requireKey at hkey
    split_ifs at hkey <;> cases hkey
    simp [unknownHandle]
  obtain ⟨-, rfl⟩ := Prod.mk.inj hkey
  rw [gets_bind_apply, hclear.records] at hrest
  rcases hstate : c.backend.records.get? best.key with _ | state <;> rw [hstate] at hrest
  · cases hrest
    simp [unknownHandle]
  have hbinding := (requireState_ok.mp (hc.bound hstate)).2.1
  rcases bind_eq_error hrest with hlive | ⟨u, w₂, -, hpure⟩
  · exact (Knows.restoreState hsteady hbinding (halive _ (World.bound_of_get? hstate))).error
      hclear hlive
  · cases hpure

end StateBraid.Managed
