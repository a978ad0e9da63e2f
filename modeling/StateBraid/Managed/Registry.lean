import StateBraid.Coordinator.Agreement
import StateBraid.Managed.BackendSpecs

/-!
# The registry as a map backend

Bindings are the map; the queue of drops takes every handle that loses its binding, so
the calls of a transaction never lose a handle, and they send no request.
-/

namespace StateBraid.Managed
open Library Policy Coordinator LlamaCpp Exec

namespace World

/-- The client knows the handle: it is bound, or queued for a drop. -/
def Tracked (w : World) (h : String) : Prop := h ∈ w.bound ∨ h ∈ w.pending

theorem mem_bound {w : World} {h : String} :
    h ∈ w.bound ↔ ∃ k st, w.records.get? k = some st ∧ st.handle = h := by
  simp only [bound, List.mem_map, Dict.mem_values_iff]
  constructor
  · rintro ⟨st, ⟨k, hk⟩, rfl⟩
    exact ⟨k, st, hk, rfl⟩
  · rintro ⟨k, st, hk, rfl⟩
    exact ⟨st, ⟨k, hk⟩, rfl⟩

theorem bound_of_get? {w : World} {k : Key} {st : StateHandle} (h : w.records.get? k = some st) :
    st.handle ∈ w.bound := mem_bound.mpr ⟨k, st, h, rfl⟩

theorem mem_pending {w : World} {h : String} :
    h ∈ w.pending ↔ ∃ st, w.pendingDrops.get? h = some st := Dict.mem_keys_iff

/-- The registry decides what is known. -/
theorem tracked_congr {w w' : World} (hrecords : w'.records = w.records)
    (hpending : w'.pendingDrops = w.pendingDrops) {h : String} : w'.Tracked h ↔ w.Tracked h := by
  simp only [Tracked, bound, pending, hrecords, hpending]

/-- What unbinding does when there is something to unbind. -/
theorem unbind_of_get? {w : World} {key : Key} {st : StateHandle}
    (h : w.records.get? key = some st) :
    w.unbind key = { w with
      records := w.records.erase key
      pendingDrops := w.pendingDrops.insert st.handle st } := by
  rw [unbind, h]

theorem unbind_of_none {w : World} {key : Key} (h : w.records.get? key = none) :
    w.unbind key = w := by
  rw [unbind, h]

theorem unbind_records (w : World) (key k : Key) :
    (w.unbind key).records.get? k = if k = key then none else w.records.get? k := by
  cases h : w.records.get? key with
  | none =>
    rw [unbind_of_none h]
    split_ifs with hk
    · rw [hk, h]
    · rfl
  | some st => rw [unbind_of_get? h, Dict.get?_erase]

/-- An unbound handle is queued, so it stays known. -/
theorem unbind_tracked {w : World} {key : Key} {h : String} (ht : w.Tracked h) :
    (w.unbind key).Tracked h := by
  cases hkey : w.records.get? key with
  | none => rwa [unbind_of_none hkey]
  | some st =>
    rcases ht with hbound | hpending
    · obtain ⟨k, st', hk, rfl⟩ := mem_bound.mp hbound
      by_cases hself : k = key
      · subst hself
        rw [hkey] at hk
        cases hk
        refine Or.inr (mem_pending.mpr ⟨st, ?_⟩)
        rw [unbind_of_get? hkey, Dict.get?_insert, if_pos rfl]
      · exact Or.inl (mem_bound.mpr ⟨k, st', by rw [unbind_records, if_neg hself, hk], rfl⟩)
    · refine Or.inr ?_
      rw [unbind_of_get? hkey, pending, Dict.mem_keys_insert]
      exact Or.inr hpending

/-- Binding a key that holds nothing loses no handle. -/
theorem bind_tracked {w : World} {key : Key} {st : StateHandle}
    (hvacant : w.records.get? key = none) {h : String} (ht : w.Tracked h) :
    (w.bind key st).Tracked h := by
  rcases ht with hbound | hpending
  · obtain ⟨k, st', hk, rfl⟩ := mem_bound.mp hbound
    refine Or.inl (mem_bound.mpr ⟨k, st', ?_, rfl⟩)
    rw [bind, Dict.get?_insert, if_neg, hk]
    rintro rfl
    rw [hvacant] at hk
    cases hk
  · by_cases hself : h = st.handle
    · refine Or.inl (mem_bound.mpr ⟨key, st, ?_, hself.symm⟩)
      rw [bind, Dict.get?_insert, if_pos rfl]
    · exact Or.inr (Dict.mem_keys_erase.mpr ⟨hpending, hself⟩)

/-- Where a state of the registry comes from, given the registry before and the state on
offer. -/
def Known (w : World) (offered : Option StateHandle) (st : StateHandle) : Prop :=
  (∃ k, w.records.get? k = some st) ∨ w.pendingDrops.get? st.handle = some st ∨ offered = some st

end World

/-- What the calls of a transaction that started in `w₀` do to the world: they touch the
registry alone, they lose no handle, and every state in it is one that was known. -/
structure Rebound (A : Adapter) (w₀ : World) (offered : Option StateHandle) (w : World) : Prop where
  server : w.server = w₀.server
  script : w.script = w₀.script
  pastEpochs : w.pastEpochs = w₀.pastEpochs
  history : w.history = w₀.history
  kept : ∀ {h}, w₀.Tracked h → w.Tracked h
  bound : ∀ {k st}, w.records.get? k = some st →
    requireState A k st = .ok () ∧ w₀.Known offered st
  queued : ∀ {h st}, w.pendingDrops.get? h = some st →
    st.handle = h ∧ stateBinding A st = .ok () ∧ w₀.Known offered st

namespace Rebound

variable {A : Adapter} {w₀ w : World} {offered : Option StateHandle}

theorem unbind (h : Rebound A w₀ offered w) (key : Key) : Rebound A w₀ offered (w.unbind key) := by
  cases hkey : w.records.get? key with
  | none => rwa [World.unbind_of_none hkey]
  | some st =>
    have hqueued : ∀ {name st'}, (w.unbind key).pendingDrops.get? name = some st' →
        st'.handle = name ∧ stateBinding A st' = .ok () ∧ w₀.Known offered st' := by
      intro name st' hget
      rw [World.unbind_of_get? hkey, Dict.get?_insert] at hget
      split_ifs at hget with hname
      · cases hget
        obtain ⟨hsound, hknown⟩ := h.bound hkey
        exact ⟨hname.symm, (requireState_ok.mp hsound).2.1, hknown⟩
      · exact h.queued hget
    refine ⟨?_, ?_, ?_, ?_, fun ht => World.unbind_tracked (h.kept ht), fun hget => ?_, hqueued⟩
    · rw [World.unbind_of_get? hkey]
      exact h.server
    · rw [World.unbind_of_get? hkey]
      exact h.script
    · rw [World.unbind_of_get? hkey]
      exact h.pastEpochs
    · rw [World.unbind_of_get? hkey]
      exact h.history
    · rw [World.unbind_records] at hget
      split_ifs at hget
      exact h.bound hget

theorem bind (h : Rebound A w₀ offered w) {key : Key} {st : StateHandle}
    (hsound : requireState A key st = .ok ()) (hknown : w₀.Known offered st)
    (hvacant : w.records.get? key = none) : Rebound A w₀ offered (w.bind key st) where
  server := h.server
  script := h.script
  pastEpochs := h.pastEpochs
  history := h.history
  kept ht := World.bind_tracked hvacant (h.kept ht)
  bound hget := by
    rw [World.bind, Dict.get?_insert] at hget
    split_ifs at hget with hkey
    · cases hget
      exact ⟨hkey ▸ hsound, hknown⟩
    · exact h.bound hget
  queued hget := by
    rw [World.bind, Dict.get?_erase] at hget
    split_ifs at hget
    exact h.queued hget

end Rebound

/-- How the registry is read during a transaction that started in `w₀`. -/
def registrySpec (A : Adapter) (w₀ : World) (offered : Option StateHandle) :
    MapSpec CacheNamespace World StateHandle StateHandle where
  view w := w.records.get?
  inv := Rebound A w₀ offered
  calm _ := True
  valid key := key.cacheNamespace = A.cacheNamespace
  sound key state := requireState A key state = .ok () ∧ w₀.Known offered state
  offered _ state := offered = some state
  stored state _ := state

section Calls

variable {A : Adapter} {key : Key} {w : World}

theorem registry_capture (hkey : key.cacheNamespace = A.cacheNamespace) :
    (registry A).capture key w = (.ok (w.records.get? key), w) := by
  simp [registry, requireKey_ok.mpr hkey]

theorem registry_remove (hkey : key.cacheNamespace = A.cacheNamespace) :
    (registry A).remove key w = (.ok (), w.unbind key) := by
  simp [registry, requireKey_ok.mpr hkey]

theorem registry_restore {state : StateHandle} (hsound : requireState A key state = .ok ()) :
    (registry A).restore key state w = (.ok (), w.bind key state) := by
  simp [registry, hsound]

/-- An insertion binds the key, or raises before it has touched anything. -/
theorem registry_insert {state : StateHandle} {role : Role} :
    (registry A).insert key state role w =
      match requireState A key state with
      | .ok _ => (.ok (), w.bind key state)
      | .error e => (.error e, w) := by
  rcases h : requireState A key state with e | ⟨⟩ <;> simp [registry, h]

theorem registry_forget (hkey : key.cacheNamespace = A.cacheNamespace) :
    (registry A).forget key w = (.ok (), w.forget key) := by
  simp [registry, TransactionalBackend.forget, requireKey_ok.mpr hkey]

end Calls

/-- The registry obeys the laws of a map backend. Only an insertion can raise. -/
theorem registry_mapBackend (A : Adapter) (w₀ : World) (offered : Option StateHandle) :
    MapBackend (registry A) (registrySpec A w₀ offered) where
  capture _ hkey := registry_capture hkey
  remove_ok hkey hinv hrun := by
    rw [registry_remove hkey] at hrun
    cases hrun
    exact ⟨hinv.unbind _, World.unbind_records _ _⟩
  remove_error hkey _ hrun := by
    rw [registry_remove hkey] at hrun
    cases hrun
  insert_ok {key state role w w'} hkey hoffered hinv hvacant hrun := by
    rw [registry_insert] at hrun
    rcases hsound : requireState A key state with e | ⟨⟩ <;> rw [hsound] at hrun <;> cases hrun
    exact ⟨hinv.bind hsound (Or.inr (Or.inr hoffered)) hvacant, fun j => Dict.get?_insert _ _ _ _⟩
  insert_error {key state role w e w'} hkey hoffered hinv hvacant hrun := by
    rw [registry_insert] at hrun
    rcases hsound : requireState A key state with e | ⟨⟩ <;> rw [hsound] at hrun <;> cases hrun
    exact ⟨hinv, trivial, fun _ _ => rfl⟩
  remove_calm hkey _ := ⟨_, registry_remove hkey, trivial⟩
  restore_calm hkey hsound hinv _ hvacant := ⟨_, registry_restore hsound.1,
    hinv.bind hsound.1 hsound.2 hvacant, trivial, fun j => Dict.get?_insert _ _ _ _⟩

end StateBraid.Managed
