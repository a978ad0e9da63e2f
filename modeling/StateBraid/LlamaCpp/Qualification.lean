import StateBraid.LlamaCpp.Probe

/-!
# One boundary, coded twice

What a server must answer to pass the probe and to pass the adapter's preflight, and the
servers for which the two say the same.
-/
namespace StateBraid.LlamaCpp
open Managed HttpAdapter

/-! ## What a server advertises -/

/-- The ids of a slot list whose entries all have one. -/
def listedIds : Json → Option (List ℤ)
  | .arr items =>
    if items.all (fun item => (item.get "id").asInt?.isSome) then some (integerIds items) else none
  | _ => none

/-- The properties name the audited source and as many slots as are listed, one at least. -/
structure Advertises (props : Json) (ids : List ℤ) : Prop where
  object : props.isObject = true
  audited : (props.get "build_info").asStr?.any referenceSourceMatch = true
  total : (props.get "total_slots").asInt? = some (ids.length : ℤ)
  listed : ids ≠ []

/-- A server with these two answers. -/
def answering (props slots : Json) : GetJson := fun path =>
  if path = "/props" then .ok props
  else if path = "/slots" then .ok slots
  else .error (.httpError "File Not Found")

/-- Some adapter for this slot can be constructed, and its preflight succeeds. -/
def PassesPreflight (get : GetJson) (idSlot : ℤ) : Prop :=
  ∃ baseUrl trustDomain A, HttpAdapter.new baseUrl idSlot trustDomain = .ok A ∧
    A.preflight get = .ok ()

/-- Probe and adapter agree on a server: it is compatible exactly when the preflight
succeeds for some slot, and then it succeeds for every slot listed. -/
structure QualifiedAlike (props slots : Json) : Prop where
  compatible : (probeServer (answering props slots)).compatible = true ↔
    ∃ idSlot, PassesPreflight (answering props slots) idSlot
  listed : (∃ idSlot, PassesPreflight (answering props slots) idSlot) →
    ∀ items, slots = .arr items → ∀ idSlot ∈ integerIds items,
      PassesPreflight (answering props slots) idSlot

variable {props slots : Json} {items : List Json} {ids : List ℤ}

theorem isObject_of_get {item : Json} {name : String} {n : ℤ}
    (h : (item.get name).asInt? = some n) : item.isObject = true := by
  cases item <;> first | rfl | cases h

theorem listedIds_eq_some : listedIds slots = some ids ↔ ∃ items, slots = .arr items ∧
    (∀ item ∈ items, (item.get "id").asInt?.isSome = true) ∧ ids = integerIds items := by
  cases slots with
  | arr items =>
    simp only [listedIds, Option.ite_none_right_eq_some, Option.some.injEq, List.all_eq_true,
      Json.arr.injEq, exists_eq_left']
    exact and_congr_right fun _ => eq_comm
  | null | bool _ | int _ | float _ | str _ | obj _ => simp [listedIds]

theorem validSlots_eq (hall : ∀ item ∈ items, (item.get "id").asInt?.isSome = true) :
    validSlots items = items := by
  refine List.filter_eq_self.mpr fun item hitem => ?_
  obtain ⟨n, hn⟩ := Option.isSome_iff_exists.mp (hall item hitem)
  rw [isObject_of_get hn, hn]
  rfl

theorem all_of_validSlots (hlen : (validSlots items).length = items.length) :
    ∀ item ∈ items, (item.get "id").asInt?.isSome = true := by
  intro item hitem
  have hall := List.length_filter_eq_length_iff.mp hlen item hitem
  exact (Bool.and_eq_true_iff.mp hall).2

/-! ## What passes -/

theorem slotIssues_eq_nil : slotIssues items = [] ↔
    (∀ item ∈ items, (item.get "id").asInt?.isSome = true) ∧ items ≠ [] := by
  unfold slotIssues
  constructor
  · intro h
    split_ifs at h with hbad
    obtain ⟨hlen, hsome⟩ := not_or.mp hbad
    have hall := all_of_validSlots (not_not.mp hlen)
    exact ⟨hall, validSlots_eq hall ▸ hsome⟩
  · rintro ⟨hall, hsome⟩
    rw [validSlots_eq hall]
    exact if_neg (not_or.mpr ⟨not_not.mpr rfl, hsome⟩)

theorem sourceIssues_eq_nil {buildInfo : Option String} :
    sourceIssues buildInfo = [] ↔ buildInfo.any referenceSourceMatch = true := by
  cases buildInfo with
  | none => exact iff_of_false (List.cons_ne_nil _ _) Bool.false_ne_true
  | some info =>
    unfold sourceIssues
    rw [Option.any_some]
    dsimp only
    by_cases hmatch : referenceSourceMatch info = true
    · have hcommit : sourceCommit info ≠ none := by
        intro hnone
        rw [referenceSourceMatch, hnone] at hmatch
        exact Bool.false_ne_true hmatch
      exact iff_of_true (by rw [if_neg hcommit, if_neg (not_not.mpr hmatch)]) hmatch
    · refine iff_of_false (fun h => ?_) hmatch
      rw [if_pos hmatch] at h
      split_ifs at h

theorem totalIssues_eq_nil {total : Option ℤ} {count : ℕ} (hcount : 0 < count) :
    totalIssues (total.filter (fun n => 0 < n)) count = [] ↔ total = some (count : ℤ) := by
  cases total with
  | none => exact iff_of_false (List.cons_ne_nil _ _) (by simp)
  | some n =>
    by_cases hn : 0 < n
    · rw [Option.filter_some, if_pos (decide_eq_true hn), Option.some.injEq]
      unfold totalIssues
      dsimp only
      by_cases hne : n = count
      · exact iff_of_true (if_neg (not_not.mpr hne)) hne
      · rw [if_pos hne]
        exact iff_of_false (List.cons_ne_nil _ _) hne
    · rw [Option.filter_some, if_neg (by simpa using hn), Option.some.injEq]
      exact iff_of_false (List.cons_ne_nil _ _) (by omega)

/-- What the probe requires. -/
theorem compatible_iff : (probeServer (answering props slots)).compatible = true ↔
    ∃ ids, listedIds slots = some ids ∧ Advertises props ids := by
  have hanswers : answering props slots "/props" = .ok props ∧
      answering props slots "/slots" = .ok slots := ⟨rfl, rfl⟩
  unfold probeServer
  rw [hanswers.1, hanswers.2]
  dsimp only
  by_cases hobject : props.isObject = true
  swap
  · rw [if_pos hobject]
    exact iff_of_false Bool.false_ne_true fun ⟨_, _, h⟩ => hobject h.object
  rw [if_neg (not_not.mpr hobject)]
  cases slots with
  | arr items =>
    simp only [reportOn, List.isEmpty_iff, List.append_eq_nil_iff, slotIssues_eq_nil,
      sourceIssues_eq_nil]
    constructor
    · rintro ⟨⟨⟨hall, hsome⟩, haudited⟩, htotal⟩
      have hlen := List.filterMap_length_eq_length.mpr hall
      rw [validSlots_eq hall, totalIssues_eq_nil (List.length_pos_iff.mpr hsome)] at htotal
      refine ⟨integerIds items, listedIds_eq_some.mpr ⟨items, rfl, hall, rfl⟩,
        ⟨hobject, haudited, ?_, fun hnil => hsome ?_⟩⟩
      · rw [htotal, integerIds, hlen]
      · rw [← List.length_eq_zero_iff, ← hlen]
        exact List.length_eq_zero_iff.mpr hnil
    · rintro ⟨ids, hids, had⟩
      obtain ⟨items', heq, hall, rfl⟩ := listedIds_eq_some.mp hids
      obtain rfl := Json.arr.inj heq
      have hlen := List.filterMap_length_eq_length.mpr hall
      have hsome : items ≠ [] := by
        rintro rfl
        exact had.listed rfl
      refine ⟨⟨⟨hall, hsome⟩, had.audited⟩, ?_⟩
      rw [validSlots_eq hall, totalIssues_eq_nil (List.length_pos_iff.mpr hsome), had.total,
        integerIds, hlen]
  | null | bool _ | int _ | float _ | str _ | obj _ =>
    exact iff_of_false Bool.false_ne_true fun ⟨ids, hids, _⟩ => by simp [listedIds] at hids

theorem requireReferenceSource_ok {total : ℤ} :
    requireReferenceSource (answering props slots) = .ok total ↔
      props.isObject = true ∧ (props.get "build_info").asStr?.any referenceSourceMatch = true ∧
        (props.get "total_slots").asInt? = some total ∧ 0 < total := by
  have hanswers : answering props slots "/props" = .ok props := rfl
  unfold requireReferenceSource
  rw [hanswers]
  dsimp only
  by_cases hobject : props.isObject = true
  swap
  · rw [if_pos hobject]
    exact iff_of_false (by simp) fun h => hobject h.1
  by_cases haudited : (props.get "build_info").asStr?.any referenceSourceMatch = true
  swap
  · rw [if_neg (not_not.mpr hobject), if_pos haudited]
    exact iff_of_false (by simp) fun h => haudited h.2.1
  rw [if_neg (not_not.mpr hobject), if_neg (not_not.mpr haudited)]
  cases htotal : (props.get "total_slots").asInt? with
  | none => exact iff_of_false (by simp) (by simp)
  | some n =>
    dsimp only
    by_cases hn : n ≤ 0
    · rw [if_pos hn]
      refine iff_of_false (by simp) fun h => ?_
      obtain rfl := Option.some.inj h.2.2.1
      exact absurd h.2.2.2 (not_lt.mpr hn)
    · rw [if_neg hn, Except.ok.injEq, Option.some.injEq]
      exact ⟨fun h => ⟨hobject, haudited, h, h ▸ not_le.mp hn⟩, fun h => h.2.2.1⟩

/-- As many ids as entries, counted as a set: all entries have one, and all differ. -/
theorem card_integerIds : (integerIds items).toFinset.card = items.length ↔
    (∀ item ∈ items, (item.get "id").asInt?.isSome = true) ∧ (integerIds items).Nodup := by
  have hdedup := (List.dedup_sublist (integerIds items)).length_le
  have hfilter : (integerIds items).length ≤ items.length := List.length_filterMap_le _ _
  rw [List.card_toFinset]
  constructor
  · intro h
    have hlen : (integerIds items).length = items.length := by omega
    refine ⟨List.filterMap_length_eq_length.mp hlen, List.dedup_eq_self.mp ?_⟩
    exact (List.dedup_sublist (integerIds items)).eq_of_length (by omega)
  · rintro ⟨hall, hnodup⟩
    rw [List.dedup_eq_self.mpr hnodup]
    exact List.filterMap_length_eq_length.mpr hall

theorem requireExactSlot_ok {A : HttpAdapter} {total : ℤ} :
    A.requireExactSlot (answering props slots) total = .ok () ↔
      ∃ ids, listedIds slots = some ids ∧ (ids.length : ℤ) = total ∧ ids.Nodup ∧
        A.idSlot ∈ ids := by
  have hanswers : answering props slots "/slots" = .ok slots := rfl
  unfold requireExactSlot HttpAdapter.slots
  rw [hanswers]
  cases slots with
  | arr items =>
    have hlisted {ids : List ℤ} : listedIds (.arr items) = some ids ↔
        (∀ item ∈ items, (item.get "id").asInt?.isSome = true) ∧ ids = integerIds items := by
      rw [listedIds_eq_some]
      simp
    dsimp only
    constructor
    · intro h
      split_ifs at h with hobjects
      dsimp only at h
      split_ifs at h with hcount hmem
      obtain ⟨hcard, htotal⟩ := not_or.mp hcount
      obtain ⟨hall, hnodup⟩ := card_integerIds.mp (not_not.mp hcard)
      refine ⟨integerIds items, hlisted.mpr ⟨hall, rfl⟩, ?_, hnodup, ?_⟩
      · rw [← not_not.mp htotal, List.toFinset_card_of_nodup hnodup]
      · exact List.mem_toFinset.mp hmem
    · rintro ⟨ids, hids, rfl, hnodup, hmem⟩
      obtain ⟨hall, rfl⟩ := hlisted.mp hids
      have hobjects : items.all Json.isObject = true := by
        refine List.all_eq_true.mpr fun item hitem => ?_
        obtain ⟨n, hn⟩ := Option.isSome_iff_exists.mp (hall item hitem)
        exact isObject_of_get hn
      have hcard := card_integerIds.mpr ⟨hall, hnodup⟩
      have hcount : ¬ ((integerIds items).toFinset.card ≠ items.length ∨
          ((integerIds items).toFinset.card : ℤ) ≠ (integerIds items).length) := by
        rw [List.toFinset_card_of_nodup hnodup] at hcard ⊢
        simp [hcard]
      rw [if_pos hobjects]
      dsimp only
      rw [if_neg hcount, if_neg (not_not.mpr (List.mem_toFinset.mpr hmem))]
  | null | bool _ | int _ | float _ | str _ | obj _ =>
    exact iff_of_false (by simp) fun ⟨ids, hids, _⟩ => by simp [listedIds] at hids

/-- What the preflight of an adapter requires. -/
theorem preflight_iff {A : HttpAdapter} : A.preflight (answering props slots) = .ok () ↔
    ∃ ids, listedIds slots = some ids ∧ Advertises props ids ∧ ids.Nodup ∧ A.idSlot ∈ ids := by
  unfold preflight
  constructor
  · intro h
    cases hsource : requireReferenceSource (answering props slots) with
    | error e => simp [hsource] at h
    | ok total =>
      rw [hsource] at h
      obtain ⟨hobject, haudited, htotal, -⟩ := requireReferenceSource_ok.mp hsource
      obtain ⟨ids, hids, rfl, hnodup, hmem⟩ := requireExactSlot_ok.mp h
      exact ⟨ids, hids, ⟨hobject, haudited, htotal, List.ne_nil_of_mem hmem⟩, hnodup, hmem⟩
  · rintro ⟨ids, hids, had, hnodup, hmem⟩
    have hpositive : (0 : ℤ) < ids.length := by
      exact_mod_cast List.length_pos_iff.mpr had.listed
    rw [requireReferenceSource_ok.mpr ⟨had.object, had.audited, had.total, hpositive⟩]
    exact requireExactSlot_ok.mpr ⟨ids, hids, rfl, hnodup, hmem⟩

/-- A slot passes the preflight when it is not negative and the server passes for it. -/
theorem passesPreflight_iff {idSlot : ℤ} : PassesPreflight (answering props slots) idSlot ↔
    0 ≤ idSlot ∧ ∃ ids, listedIds slots = some ids ∧ Advertises props ids ∧ ids.Nodup ∧
      idSlot ∈ ids := by
  constructor
  · rintro ⟨baseUrl, trustDomain, A, hnew, hpasses⟩
    have hslot : A.idSlot = idSlot := by
      unfold HttpAdapter.new at hnew
      split_ifs at hnew
      split at hnew
      · cases hnew
      · split_ifs at hnew
        cases hnew
        rfl
    rw [← hslot]
    exact ⟨A.idSlot_nonneg, preflight_iff.mp hpasses⟩
  · rintro ⟨hnonneg, hpasses⟩
    refine ⟨"", defaultTrustDomain, ⟨stripSlashes "", idSlot, hnonneg⟩, ?_,
      preflight_iff.mpr hpasses⟩
    have hdomain : validateTrustDomain defaultTrustDomain = .ok defaultTrustDomain := by decide
    unfold HttpAdapter.new
    rw [dif_neg (not_lt.mpr hnonneg), hdomain]
    exact if_neg (not_not.mpr rfl)

/-- Probe and adapter agree on a server exactly when the ids it lists, where everything else
is as required, are distinct and not negative. -/
theorem qualifiedAlike_iff (props slots : Json) :
    QualifiedAlike props slots ↔
      ∀ ids, listedIds slots = some ids → Advertises props ids →
        ids.Nodup ∧ ∀ idSlot ∈ ids, 0 ≤ idSlot := by
  constructor
  · intro h ids hids had
    obtain ⟨idSlot, hpasses⟩ := h.compatible.mp (compatible_iff.mpr ⟨ids, hids, had⟩)
    obtain ⟨-, ids', hids', -, hnodup, -⟩ := passesPreflight_iff.mp hpasses
    obtain rfl := Option.some.inj (hids'.symm.trans hids)
    obtain ⟨items, hitems, -, heq⟩ := listedIds_eq_some.mp hids
    refine ⟨hnodup, fun other hother => ?_⟩
    exact (passesPreflight_iff.mp (h.listed ⟨idSlot, hpasses⟩ items hitems other (heq ▸ hother))).1
  · intro h
    constructor
    case compatible =>
      rw [compatible_iff]
      constructor
      · rintro ⟨ids, hids, had⟩
        obtain ⟨hnodup, hnonneg⟩ := h ids hids had
        obtain ⟨idSlot, hmem⟩ := List.exists_mem_of_ne_nil ids had.listed
        exact ⟨idSlot, passesPreflight_iff.mpr ⟨hnonneg _ hmem, ids, hids, had, hnodup, hmem⟩⟩
      · rintro ⟨idSlot, hpasses⟩
        obtain ⟨-, ids, hids, had, -, -⟩ := passesPreflight_iff.mp hpasses
        exact ⟨ids, hids, had⟩
    case listed =>
      rintro ⟨idSlot, hpasses⟩ items rfl other hother
      obtain ⟨-, ids, hids, had, hnodup, -⟩ := passesPreflight_iff.mp hpasses
      obtain ⟨items', heq, -, rfl⟩ := listedIds_eq_some.mp hids
      obtain rfl := Json.arr.inj heq
      exact passesPreflight_iff.mpr ⟨(h _ hids had).2 other hother, _, hids, had, hnodup, hother⟩

namespace Sample

/-- The properties of an audited server with two slots. -/
def auditedTwoSlots : Json :=
  .obj [("build_info", .str "b999-465e49b9"), ("total_slots", .int 2)]

/-- A slot list that names one slot twice. -/
def slotZeroTwice : Json := .arr [.obj [("id", .int 0)], .obj [("id", .int 0)]]

end Sample

open Sample

/-- The probe finds the server compatible, and no adapter passes its preflight. -/
theorem repeated_slot_is_compatible :
    (probeServer (answering auditedTwoSlots slotZeroTwice)).compatible = true ∧
      ¬ ∃ idSlot, PassesPreflight (answering auditedTwoSlots slotZeroTwice) idSlot := by
  refine ⟨by decide +kernel, ?_⟩
  rintro ⟨idSlot, hpasses⟩
  obtain ⟨-, ids, hids, -, hnodup, -⟩ := passesPreflight_iff.mp hpasses
  have heq : listedIds slotZeroTwice = some [0, 0] := rfl
  obtain rfl := Option.some.inj (hids.symm.trans heq)
  exact absurd hnodup (by decide)

end StateBraid.LlamaCpp
