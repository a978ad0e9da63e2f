import Mathlib.Data.Finset.Basic
import Mathlib.Data.List.Sort

/-!
# Selecting from the front of a list

A list put in order by a key, ties as they were; a list with some of its elements moved
behind the others; and the shortest prefix that is enough. A greedy loop that takes one
element after the other until it has enough takes exactly that prefix.
-/
namespace Library

variable {α : Type}

/-! ## Stable order -/

/-- `a` before `b` by the key, and where the keys are equal by the position. -/
def StableLt (key position : α → ℕ) (a b : α) : Prop :=
  key a < key b ∨ key a = key b ∧ position a < position b

section Stable

variable {key position : α → ℕ}

instance : Std.Irrefl (StableLt key position) := ⟨fun a h => by unfold StableLt at h; omega⟩

theorem StableLt.asymm {a b : α} (h : StableLt key position a b) : ¬ StableLt key position b a := by
  unfold StableLt at *
  omega

/-- An element that stands in front of all others is inserted in front of its ties. -/
theorem pairwise_orderedInsert_stable {a : α} {l : List α}
    (hl : l.Pairwise (StableLt key position)) (ha : ∀ b ∈ l, position a < position b) :
    (l.orderedInsert (fun a b => key a ≤ key b) a).Pairwise (StableLt key position) := by
  induction l with
  | nil => simp
  | cons b l ih =>
    obtain ⟨hb, hrest⟩ := List.pairwise_cons.mp hl
    have hab := ha b List.mem_cons_self
    rw [List.orderedInsert_cons]
    split_ifs with hle
    · refine List.pairwise_cons.mpr ⟨fun c hc => ?_, hl⟩
      have hac := ha c hc
      rcases List.mem_cons.mp hc with rfl | hc
      · unfold StableLt
        omega
      · have hbc := hb c hc
        unfold StableLt at *
        omega
    · refine List.pairwise_cons.mpr ⟨fun c hc => ?_, ih hrest fun c hc =>
        ha c (List.mem_cons_of_mem b hc)⟩
      rcases (List.mem_orderedInsert _).mp hc with rfl | hc
      · exact Or.inl (not_le.mp hle)
      · exact hb c hc

/-- Insertion by a key sorts by the key and keeps ties in their order. -/
theorem pairwise_insertionSort_stable {l : List α}
    (hl : l.Pairwise (fun a b => position a < position b)) :
    (l.insertionSort (fun a b => key a ≤ key b)).Pairwise (StableLt key position) := by
  induction l with
  | nil => simp
  | cons a l ih =>
    obtain ⟨ha, hrest⟩ := List.pairwise_cons.mp hl
    rw [List.insertionSort_cons]
    exact pairwise_orderedInsert_stable (ih hrest) fun b hb =>
      ha b ((List.mem_insertionSort _).mp hb)

/-- Without repetitions, positions grow along the list. -/
theorem pairwise_idxOf [DecidableEq α] {l : List α} (h : l.Nodup) :
    l.Pairwise (fun a b => l.idxOf a < l.idxOf b) := by
  rw [List.pairwise_iff_getElem]
  intro i j hi hj hij
  rwa [h.idxOf_getElem i hi, h.idxOf_getElem j hj]

end Stable

/-! ## Deferring -/

section Deferring

variable [DecidableEq α]

/-- The list with the elements of a set behind all others. -/
def deferring (S : Finset α) (l : List α) : List α :=
  l.filter (fun a => a ∉ S) ++ l.filter (fun a => a ∈ S)

theorem deferring_perm (S : Finset α) (l : List α) : (deferring S l).Perm l := by
  have h := List.filter_append_perm (fun a => decide (a ∉ S)) l
  simpa [deferring] using h

theorem mem_deferring {S : Finset α} {l : List α} {a : α} : a ∈ deferring S l ↔ a ∈ l :=
  (deferring_perm S l).mem_iff

theorem deferring_filter (S : Finset α) (l : List α) (q : α → Bool) :
    (deferring S l).filter q = deferring S (l.filter q) := by
  simp only [deferring, List.filter_append, List.filter_filter, Bool.and_comm]

theorem deferring_empty (l : List α) : deferring ∅ l = l := by simp [deferring]

/-- Only the elements that are in the list matter. -/
theorem deferring_congr {S T : Finset α} {l : List α} (h : ∀ a ∈ l, (a ∈ S ↔ a ∈ T)) :
    deferring S l = deferring T l := by
  unfold deferring
  congr 1
  · exact List.filter_congr fun a ha => decide_eq_decide.mpr (not_congr (h a ha))
  · exact List.filter_congr fun a ha => decide_eq_decide.mpr (h a ha)

/-- The first element is one outside the set, or else the first of all. -/
theorem head?_deferring (S : Finset α) (l : List α) :
    (deferring S l).head? = (l.find? (fun a => a ∉ S)).or l.head? := by
  rw [deferring, List.head?_append, List.head?_filter]
  cases hfind : l.find? (fun a => a ∉ S) with
  | some a => rfl
  | none =>
    have hall : ∀ a ∈ l, a ∈ S := by simpa using hfind
    rw [List.filter_eq_self.mpr (by simpa using hall)]

end Deferring

/-! ## The shortest prefix that is enough -/

/-- `t` is the shortest prefix of `l` with the property `P`. -/
structure ShortestPrefix (P : List α → Prop) (l t : List α) : Prop where
  isPrefix : t <+: l
  enough : P t
  least : ∀ s, s <+: l → P s → t.length ≤ s.length

namespace ShortestPrefix

variable {P : List α → Prop} {l t : List α}

theorem prefix_of (h : ShortestPrefix P l t) {s : List α} (hs : s <+: l) (hP : P s) : t <+: s :=
  List.prefix_of_prefix_length_le h.isPrefix hs (h.least s hs hP)

theorem unique {t' : List α} (h : ShortestPrefix P l t) (h' : ShortestPrefix P l t') : t = t' :=
  (h.prefix_of h'.isPrefix h'.enough).eq_of_length_le (h'.least t h.isPrefix h.enough)

theorem nil (h : P []) : ShortestPrefix P l [] := ⟨List.nil_prefix, h, fun _ _ _ => Nat.zero_le _⟩

theorem eq_nil (h : ShortestPrefix P l t) (hP : P []) : t = [] := h.unique (nil hP)

/-- When nothing is not enough, the first element is taken. -/
theorem cons_inv {a : α} (h : ShortestPrefix P (a :: l) t) (hP : ¬ P []) :
    ∃ s, t = a :: s ∧ ShortestPrefix (fun u => P (a :: u)) l s := by
  cases t with
  | nil => exact absurd h.enough hP
  | cons b s =>
    obtain ⟨rfl, hs⟩ := List.cons_prefix_cons.mp h.isPrefix
    refine ⟨s, rfl, hs, h.enough, fun u hu hPu => ?_⟩
    have := h.least (b :: u) (List.cons_prefix_cons.mpr ⟨rfl, hu⟩) hPu
    simpa using this

theorem cons {a : α} {s : List α} (hP : ¬ P [])
    (h : ShortestPrefix (fun u => P (a :: u)) l s) : ShortestPrefix P (a :: l) (a :: s) := by
  refine ⟨List.cons_prefix_cons.mpr ⟨rfl, h.isPrefix⟩, h.enough, fun u hu hPu => ?_⟩
  cases u with
  | nil => exact absurd hPu hP
  | cons b u =>
    obtain ⟨rfl, hrest⟩ := List.cons_prefix_cons.mp hu
    exact Nat.succ_le_succ (h.least u hrest hPu)

/-- A property of the images of the elements. -/
theorem map {β : Type} {Q : List β → Prop} {f : α → β} (h : ShortestPrefix P l t)
    (hQ : ∀ s, s <+: l → (P s ↔ Q (s.map f))) : ShortestPrefix Q (l.map f) (t.map f) := by
  refine ⟨h.isPrefix.map f, (hQ t h.isPrefix).mp h.enough, fun s hs hQs => ?_⟩
  obtain ⟨s, hprefix, rfl⟩ := List.prefix_map_iff.mp hs
  simpa using h.least s hprefix ((hQ s hprefix).mpr hQs)

theorem ne_nil (h : ShortestPrefix P l t) (hP : ¬ P []) (hl : l = []) : False := by
  subst hl
  exact hP (List.prefix_nil.mp h.isPrefix ▸ h.enough)

/-- Where the whole list is enough, some prefix is the shortest. -/
theorem exists_of_all (hP : P l) : ∃ t, ShortestPrefix P l t := by
  classical
  have hex : ∃ n, P (l.take n) := ⟨l.length, by rwa [List.take_length]⟩
  refine ⟨l.take (Nat.find hex), List.take_prefix _ _, Nat.find_spec hex, fun s hs hPs => ?_⟩
  rw [List.prefix_iff_eq_take.mp hs] at hPs
  exact (List.length_take_le _ _).trans (Nat.find_min' hex hPs)

/-- What is taken stands before what is left. -/
theorem rel {R : α → α → Prop} (hR : l.Pairwise R) (h : t <+: l) {a b : α} (ha : a ∈ t)
    (hb : b ∈ l) (hleft : b ∉ t) : R a b := by
  obtain ⟨s, rfl⟩ := h
  exact (List.pairwise_append.mp hR).2.2 a ha b ((List.mem_append.mp hb).resolve_left hleft)

/-- While an element outside the set is left, no deferred one is taken. -/
theorem prefix_filter [DecidableEq α] {S : Finset α} (h : t <+: deferring S l) {a : α}
    (ha : a ∈ l) (hS : a ∉ S) (hleft : a ∉ t) : t <+: l.filter (fun a => a ∉ S) := by
  rcases List.prefix_or_prefix_of_prefix h (List.prefix_append _ _) with hshort | hlong
  · exact hshort
  · exact absurd (hlong.subset (List.mem_filter.mpr ⟨ha, decide_eq_true hS⟩)) hleft

end ShortestPrefix

/-- What a list keeps of another without repetitions is that part of it. -/
theorem filter_mem_of_sublist [DecidableEq α] {l l' : List α} (h : l.Sublist l') (hl' : l'.Nodup) :
    l'.filter (fun a => a ∈ l) = l := by
  induction h with
  | slnil => rfl
  | @cons l l' a hsub ih =>
    obtain ⟨ha, hrest⟩ := List.nodup_cons.mp hl'
    rw [List.filter_cons_of_neg (by simpa using fun hmem => ha (hsub.subset hmem)), ih hrest]
  | @cons_cons l l' a hsub ih =>
    obtain ⟨ha, hrest⟩ := List.nodup_cons.mp hl'
    rw [List.filter_cons_of_pos (by simp)]
    congr 1
    rw [← ih hrest]
    refine List.filter_congr fun b hb => ?_
    have hne : b ≠ a := fun heq => ha (heq ▸ hb)
    simp [hne, ih hrest]

end Library
