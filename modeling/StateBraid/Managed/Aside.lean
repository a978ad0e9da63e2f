import StateBraid.Managed.SessionFacts

/-!
# States set aside

A state that `capture_current` returned and that the caller has not passed on yet is known
to the caller alone: its handle is neither bound nor queued, whatever else the caller does
with other states, and whatever fails on the way.
-/

namespace StateBraid.Managed
open Library Policy Coordinator LlamaCpp Exec

/-- What is held is known to the caller alone. -/
structure Aside (A : Adapter) (held obtained : List StateHandle) (φ : Phase) (c : PromptCache) :
    Prop where
  lawful : Session.Lawful A obtained φ c
  subset : ∀ state ∈ held, state ∈ obtained
  apart : ∀ name ∈ handlesOf held, ¬ c.backend.Tracked name ∧ ¬ φ.Holds name

namespace Aside

variable {A : Adapter} {held obtained : List StateHandle} {φ φ' : Phase} {c c' : PromptCache}

/-- Steps after which the client knows no handle that it did not know before. -/
theorem narrow (h : Aside A held obtained φ c) (hlawful : Session.Lawful A obtained φ' c')
    (hknown : ∀ {name}, c'.backend.Tracked name ∨ φ'.Holds name →
      c.backend.Tracked name ∨ φ.Holds name) : Aside A held obtained φ' c' where
  lawful := hlawful
  subset := h.subset
  apart name hmem := by
    have hapart := not_or.mpr (h.apart name hmem)
    exact not_or.mp fun hname => hapart (hknown hname)

/-- Steps that leave the registry alone. -/
theorem registry (h : Aside A held obtained φ c) (hlawful : Session.Lawful A obtained φ c')
    (hrecords : c'.backend.records = c.backend.records)
    (hpending : c'.backend.pendingDrops = c.backend.pendingDrops) : Aside A held obtained φ c' :=
  h.narrow hlawful (Or.imp_left (World.tracked_congr hrecords hpending).mp)

/-- Rebinding around the state in hand. -/
theorem rebound (h : Aside A held obtained φ c) {offered : Option (Key × StateHandle)}
    (hlawful : Session.Lawful A obtained φ' c') (hrebinds : Rebinds A offered c c')
    (hoffered : ∀ o ∈ offered, φ.Holds o.2.handle)
    (hholds : ∀ {name}, φ'.Holds name → φ.Holds name) : Aside A held obtained φ' c' := by
  refine h.narrow hlawful fun {name} hname => ?_
  rcases hname with htracked | hhold
  · rcases hrebinds.tracked htracked with hold | ⟨o, ho, rfl⟩
    · exact Or.inl hold
    · exact Or.inr (hoffered o ho)
  · exact Or.inr (hholds hhold)

theorem forgot (h : Aside A held obtained φ c) {handles : List String}
    (hlawful : Session.Lawful A obtained φ c') (hforgets : Forgets A handles c c') :
    Aside A held obtained φ c' :=
  h.narrow hlawful (Or.imp_left hforgets.tracked)

/-- A captured state comes under a name that no held state has. -/
theorem captured (h : Aside A held obtained .idle c) {tokens : List ℤ} {state : StateHandle}
    {evicted : List String} {w : World}
    (hlawful : Session.Lawful A obtained (.holding (cacheKey A tokens) state) c')
    (hcapture : captureCurrentState A tokens c.backend = (.ok (state, evicted), w))
    (hforgets : Forgets A evicted { c with backend := w } c') :
    Aside A held obtained (.holding (cacheKey A tokens) state) c' := by
  have horderly := h.lawful.orderly
  obtain ⟨hrecords, hpending⟩ := captureCurrentState_registry hcapture
  have hserver : c.backend.sent.server = c.backend.server := by rw [horderly.steady.sent]
  obtain ⟨slot, -, -, -, -, rfl, -, rfl⟩ := capture_returned horderly.wellFormed hcapture
  refine ⟨hlawful, h.subset, fun name hmem => ⟨fun htracked => (h.apart name hmem).1 ?_, ?_⟩⟩
  · exact (World.tracked_congr hrecords hpending).mp (hforgets.tracked htracked)
  · have hobtained : name ∈ handlesOf obtained := by
      obtain ⟨state, hstate, rfl⟩ := List.mem_map.mp hmem
      exact List.mem_map_of_mem (h.subset state hstate)
    rintro rfl
    exact horderly.ne_next (Or.inr (Or.inr hobtained)) (by rw [hserver]; rfl)

/-- Offering a state takes its handle out of what is held. -/
theorem offer (h : Aside A held obtained .idle c) (key : Key) {state : StateHandle}
    (hstate : state ∈ obtained) :
    Aside A (held.filter (fun other => other.handle ≠ state.handle)) obtained
      (.holding key state) c where
  lawful := (lawful_sessionLedger A).offer held key hstate trivial h.lawful
  subset other hother := h.subset other (List.mem_filter.mp hother).1
  apart name hmem := by
    obtain ⟨other, hother, rfl⟩ := List.mem_map.mp hmem
    obtain ⟨hold, hne⟩ := List.mem_filter.mp hother
    exact ⟨(h.apart _ (List.mem_map_of_mem hold)).1, Ne.symm (of_decide_eq_true hne)⟩

/-- A state handed out is held. -/
theorem handOver {key : Key} {state : StateHandle}
    (h : Aside A held obtained (.holding key state) c) (hbinding : stateBinding A state = .ok ())
    (huntracked : ¬ c.backend.Tracked state.handle) :
    Aside A (state :: held) (state :: obtained) .idle c where
  lawful := (lawful_sessionLedger A).handOver held hbinding h.lawful
  subset other hother := by
    rcases List.mem_cons.mp hother with rfl | hold
    · exact List.mem_cons_self
    · exact List.mem_cons_of_mem _ (h.subset other hold)
  apart name hmem := by
    rcases List.mem_cons.mp hmem with rfl | hold
    · exact ⟨huntracked, id⟩
    · exact ⟨(h.apart name hold).1, id⟩

theorem scripted (h : Aside A held obtained .idle c) {call : Call} (hsteady : call.Steady) :
    Aside A held obtained .idle (scripted c call.script) :=
  h.narrow (scripted_lawful h.lawful hsteady) id

end Aside

theorem aside_ledger (A : Adapter) (held obtained : List StateHandle) :
    Ledger A (Aside A held obtained) where
  wellFormed h := h.lawful.orderly.wellFormed
  passive {c request} hpassive hc h := by
    obtain ⟨hrecords, hpending⟩ := exchange_registry request c.backend
    exact h.registry ((lawful_ledger A obtained).passive hpassive hc h.lawful) hrecords hpending
  closing h := h.narrow ((lawful_ledger A obtained).closing h.lawful) id
  flush {c} hc h := by
    have hdrains := flushDrops_flushed (A := A) h.lawful.orderly.steady (Orderly.queued hc)
    refine h.narrow ((lawful_ledger A obtained).flush hc h.lawful) (Or.imp ?_ id)
    exact Or.imp (fun hbound => hdrains.tidies.bound ▸ hbound) flushed_pending
  reconcile {c} hc h := by
    obtain ⟨hrecords, hpending⟩ := reconcileOrphanedHandles_registry A c.backend
    exact h.registry ((lawful_ledger A obtained).reconcile hc h.lawful) hrecords hpending
  captureFailed {c tokens e w} hc hp h hrun := by
    obtain ⟨hrecords, hpending⟩ := captureCurrentState_registry hrun
    exact h.registry ((lawful_ledger A obtained).captureFailed hc hp h.lawful hrun)
      hrecords hpending
  captured hc hp h hrun hf :=
    h.captured ((lawful_ledger A obtained).captured hc hp h.lawful hrun hf) hrun hf
  accepted h hr hb := h.rebound ((lawful_ledger A obtained).accepted h.lawful hr hb) hr
    (by simp [Phase.Holds]) False.elim
  kept h hr hk := h.rebound ((lawful_ledger A obtained).kept h.lawful hr hk) hr
    (by simp [Phase.Holds]) id
  discarded {c key state} h := by
    refine h.narrow ((lawful_ledger A obtained).discarded h.lawful) fun {name} hname => ?_
    rcases hname with (hbound | hpending) | hhold
    · exact Or.inl (Or.inl hbound)
    · rcases Dict.mem_keys_insert.mp hpending with rfl | hold
      · exact Or.inr rfl
      · exact Or.inl (Or.inr hold)
    · exact hhold.elim
  released h hb := h.narrow ((lawful_ledger A obtained).released h.lawful hb)
    (Or.imp_right False.elim)
  trimmed h hr := h.rebound ((lawful_ledger A obtained).trimmed h.lawful hr) hr (by simp)
    False.elim
  observed h hr hb := h.rebound ((lawful_ledger A obtained).observed h.lawful hr hb) hr (by simp)
    False.elim

/-! ## Sessions -/

/-- The handle of a state that `capture_current` has just returned is neither bound nor
queued. -/
theorem captureState_untracked {A : Adapter} {others : List String} {c c' : PromptCache}
    (hc : Coherent A c) (horderly : Orderly A others .idle c) {tokens : List ℤ}
    {state : StateHandle} (h : captureState A tokens c = (.ok state, c')) :
    ¬ c'.backend.Tracked state.handle := by
  have hrun := captureState_run hc horderly.wellFormed tokens
  rw [h] at hrun
  generalize hr : ((Except.ok state, c') : Except PyError StateHandle × PromptCache) = r at hrun
  cases hrun with
  | blocked | failed => cases hr
  | captured state' evicted w c'' hdrained hcapture hforgets =>
    obtain ⟨hstate, rfl⟩ := Prod.mk.inj hr
    cases hstate
    have hflushed := Orderly.flushed hc horderly
    have hserver : (flushed A c).backend.sent.server = (flushed A c).backend.server := by
      rw [hflushed.steady.sent]
    obtain ⟨hrecords, hpending⟩ := captureCurrentState_registry hcapture
    obtain ⟨slot, -, -, -, -, rfl, -, rfl⟩ := capture_returned hflushed.wellFormed hcapture
    intro htracked
    have hold := (World.tracked_congr hrecords hpending).mp (hforgets.tracked htracked)
    exact hflushed.ne_next (Or.inl hold) (by rw [hserver]; rfl)

/-- In every session of permitted calls the held states are known to the caller alone. -/
theorem Session.Reached.aside {A : Adapter} {config : PolicyConfig} {server : FreshServer A}
    {s : Session} (h : s.Reached A config server Session.Permits) :
    Ledger.Between A (Aside A s.held s.obtained) s.cache := by
  refine Run.invariant (I := fun t : Session =>
    Ledger.Between A (Aside A t.held t.obtained) t.cache)
    ⟨open_coherent A config server.server, start_lawful config server,
      by simp [Session.start], by simp [Session.start, handlesOf]⟩ ?_ h
  rintro t call ⟨hc, haside⟩ ⟨hsteady, hoffers⟩
  have hscripted := scripted_coherent hc call.script
  have hs := haside.scripted hsteady
  refine Session.step_of_ledger
    (Q := fun t : Session => Ledger.Between A (Aside A t.held t.obtained) t.cache)
    (aside_ledger A t.held t.obtained) ⟨hscripted, hs⟩ id (fun hrun hc hbinding hholding =>
      ⟨hc, hholding.handOver hbinding
        (captureState_untracked hscripted hs.lawful.orderly hrun)⟩)
    (fun {tokens state role predecessor} hop => ?_) fun hforgets =>
      hs.forgot ⟨hs.lawful.orderly.forgot hforgets, hs.lawful.binding⟩ hforgets
  rw [hop] at hoffers ⊢
  exact (aside_ledger A _ _).admitCaptured hscripted (hs.offer _ hoffers.1)
    (hs.lawful.binding state hoffers.1)

end StateBraid.Managed
