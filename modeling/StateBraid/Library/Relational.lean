import StateBraid.Library.Exec

/-!
# Two computations side by side

`Simulates R Q m m'` says that from states related by `R` the two computations return
values related by `Q` or raise the same exception, in states related by `R` again.
With one rule for each construct, a law that compares two runs of one program is
assembled from a comparison of its calls.
-/
namespace Library

namespace Exec

variable {ε σ σ' α α' β β' γ γ' : Type}

/-- Two outcomes that no caller can tell apart, up to `Q` and `R`. -/
def Matched (R : σ → σ' → Prop) (Q : α → α' → Prop) :
    Except ε α × σ → Except ε α' × σ' → Prop
  | (.ok a, s), (.ok a', s') => Q a a' ∧ R s s'
  | (.error e, s), (.error e', s') => e = e' ∧ R s s'
  | _, _ => False

/-- Related states are taken to matched outcomes. -/
def Simulates (R : σ → σ' → Prop) (Q : α → α' → Prop) (m : Exec ε σ α) (m' : Exec ε σ' α') :
    Prop := ∀ s s', R s s' → Matched R Q (m s) (m' s')

section Matched

variable {R : σ → σ' → Prop} {Q : α → α' → Prop} {r : Except ε α × σ} {r' : Except ε α' × σ'}

/-- Matched outcomes are both values or both the same exception. -/
theorem Matched.cases (h : Matched R Q r r') :
    (∃ a a' s s', r = (.ok a, s) ∧ r' = (.ok a', s') ∧ Q a a' ∧ R s s') ∨
      ∃ e s s', r = (.error e, s) ∧ r' = (.error e, s') ∧ R s s' := by
  obtain ⟨_ | _, s⟩ := r
  · obtain ⟨_ | _, s'⟩ := r'
    · obtain ⟨rfl, hs⟩ := h
      exact Or.inr ⟨_, s, s', rfl, rfl, hs⟩
    · exact h.elim
  · obtain ⟨_ | _, s'⟩ := r'
    · exact h.elim
    · exact Or.inl ⟨_, _, s, s', rfl, rfl, h⟩

theorem Matched.state (h : Matched R Q r r') : R r.2 r'.2 := by
  obtain ⟨a, a', s, s', rfl, rfl, _, hs⟩ | ⟨e, s, s', rfl, rfl, hs⟩ := h.cases
  · exact hs
  · exact hs

/-- Outcomes matched at equal values are equal. -/
theorem Matched.result {r : Except ε α × σ} {r' : Except ε α × σ'} (h : Matched R Eq r r') :
    r.1 = r'.1 := by
  obtain ⟨a, _, s, s', rfl, rfl, rfl, _⟩ | ⟨e, s, s', rfl, rfl, _⟩ := h.cases
  · rfl
  · rfl

/-- What follows two matched outcomes. -/
theorem Matched.bind {S : β → β' → Prop} {m : Exec ε σ α} {m' : Exec ε σ' α'} {s : σ} {s' : σ'}
    {f : α → Exec ε σ β} {f' : α' → Exec ε σ' β'} (h : Matched R Q (m s) (m' s'))
    (hf : ∀ a a', Q a a' → Simulates R S (f a) (f' a')) :
    Matched R S ((m >>= f) s) ((m' >>= f') s') := by
  obtain ⟨a, a', t, t', hrun, hrun', ha, ht⟩ | ⟨e, t, t', hrun, hrun', ht⟩ := h.cases
  · rw [bind_of_ok hrun, bind_of_ok hrun']
    exact hf a a' ha t t' ht
  · rw [bind_of_error hrun, bind_of_error hrun']
    exact ⟨rfl, ht⟩

end Matched

namespace Simulates

variable {R : σ → σ' → Prop} {Q : α → α' → Prop} {m : Exec ε σ α} {m' : Exec ε σ' α'}

theorem pure {a : α} {a' : α'} (h : Q a a') :
    Simulates R Q (Pure.pure a : Exec ε σ α) (Pure.pure a') := fun _ _ hs => ⟨h, hs⟩

theorem raise (e : ε) : Simulates R Q (Exec.raise e : Exec ε σ α) (Exec.raise e) :=
  fun _ _ hs => ⟨rfl, hs⟩

theorem bind {S : β → β' → Prop} {f : α → Exec ε σ β} {f' : α' → Exec ε σ' β'}
    (hm : Simulates R Q m m') (hf : ∀ a a', Q a a' → Simulates R S (f a) (f' a')) :
    Simulates R S (m >>= f) (m' >>= f') := fun s s' hs => (hm s s' hs).bind hf

theorem tryExcept {handler : ε → Exec ε σ α} {handler' : ε → Exec ε σ' α'}
    (hm : Simulates R Q m m') (hh : ∀ e, Simulates R Q (handler e) (handler' e)) :
    Simulates R Q (Exec.tryExcept m handler) (Exec.tryExcept m' handler') := by
  intro s s' hs
  obtain ⟨a, a', t, t', hrun, hrun', ha, ht⟩ | ⟨e, t, t', hrun, hrun', ht⟩ := (hm s s' hs).cases
  · rw [tryExcept_of_ok hrun, tryExcept_of_ok hrun']
    exact ⟨ha, ht⟩
  · rw [tryExcept_of_error hrun, tryExcept_of_error hrun']
    exact hh e t t' ht

/-- Two loops over lists that are related element by element. -/
theorem foldEach {I : γ → γ' → Prop} {S : β → β' → Prop} {f : γ → β → Exec ε σ γ}
    {f' : γ' → β' → Exec ε σ' γ'} {xs : List β} {ys : List β'} (hlist : List.Forall₂ S xs ys)
    (hf : ∀ c c' x y, I c c' → S x y → Simulates R I (f c x) (f' c' y)) :
    ∀ {c : γ} {c' : γ'}, I c c' →
      Simulates R I (Exec.foldEach f c xs) (Exec.foldEach f' c' ys) := by
  induction hlist with
  | nil => exact fun hc => pure hc
  | cons hxy _ ih => exact fun hc => bind (hf _ _ _ _ hc hxy) fun _ _ hacc => ih hacc

theorem forEach {S : β → β' → Prop} {f : β → Exec ε σ Unit} {f' : β' → Exec ε σ' Unit}
    {xs : List β} {ys : List β'} (hlist : List.Forall₂ S xs ys)
    (hf : ∀ x y, S x y → Simulates R Eq (f x) (f' y)) :
    Simulates R Eq (Exec.forEach xs f) (Exec.forEach ys f') :=
  foldEach hlist (fun _ _ x y _ hxy => hf x y hxy) rfl

/-- A program whose calls do not tell related states apart, compared with itself. -/
theorem refl (m : Exec ε σ α) : Simulates Eq Eq m m := by
  rintro s _ rfl
  rcases m s with ⟨_ | _, t⟩
  · exact ⟨rfl, rfl⟩
  · exact ⟨rfl, rfl⟩

end Simulates

end Exec

end Library
