import Mathlib.Tactic

/-!
# Computations with a state and exceptions

`Exec ε σ α` is a computation over a state `σ` that returns an `α` or raises an
`ε`. Raising keeps the state reached so far: there is no implicit rollback, as in
an imperative language with exceptions. `Triple P m Q R` says that from every
state in `P` the computation `m` ends in `Q` when it returns and in `R` when it
raises. There is one rule for each construct, so that a fact about a program is
assembled from facts about its calls.
-/
namespace Library

/-- A state-passing computation that returns or raises, with the state reached. -/
def Exec (ε σ α : Type) : Type := σ → Except ε α × σ

namespace Exec

variable {ε σ τ α β γ : Type}

instance : Monad (Exec ε σ) where
  pure a := fun s => (.ok a, s)
  bind m f := fun s =>
    match m s with
    | (.ok a, s') => f a s'
    | (.error e, s') => (.error e, s')

/-- Raise an exception. -/
def raise (e : ε) : Exec ε σ α := fun s => (.error e, s)

/-- Read a function of the state. -/
def gets (f : σ → α) : Exec ε σ α := fun s => (.ok (f s), s)

/-- Return or raise as a pure computation does. -/
def ofExcept (r : Except ε α) : Exec ε σ α := fun s => (r, s)

/-- Replace the state. -/
def modify (f : σ → σ) : Exec ε σ Unit := fun s => (.ok (), f s)

/-- `try m except e: handler e`. -/
def tryExcept (m : Exec ε σ α) (handler : ε → Exec ε σ α) : Exec ε σ α := fun s =>
  match m s with
  | (.ok a, s') => (.ok a, s')
  | (.error e, s') => handler e s'

/-- `try m finally f`: an exception of `f` replaces the result of `m`. -/
def tryFinally (m : Exec ε σ α) (f : Exec ε σ Unit) : Exec ε σ α := fun s =>
  match m s with
  | (r, s') =>
    match f s' with
    | (.ok _, s'') => (r, s'')
    | (.error e, s'') => (.error e, s'')

/-- Run a computation on one component of a larger state. -/
def zoom (get : σ → τ) (put : τ → σ → σ) (m : Exec ε τ α) : Exec ε σ α := fun s =>
  match m (get s) with
  | (r, t) => (r, put t s)

/-- A loop with an accumulator: `for x in xs: acc = f acc x`. -/
def foldEach (f : γ → β → Exec ε σ γ) : γ → List β → Exec ε σ γ
  | acc, [] => pure acc
  | acc, x :: xs => f acc x >>= fun acc' => foldEach f acc' xs

/-- A loop over a list: `for x in xs: f x`. -/
def forEach (xs : List β) (f : β → Exec ε σ Unit) : Exec ε σ Unit :=
  foldEach (fun _ x => f x) () xs

section Apply

@[simp] theorem pure_apply (a : α) (s : σ) : (pure a : Exec ε σ α) s = (.ok a, s) := rfl
@[simp] theorem raise_apply (e : ε) (s : σ) : (raise e : Exec ε σ α) s = (.error e, s) := rfl
@[simp] theorem gets_apply (f : σ → α) (s : σ) :
    (gets f : Exec ε σ α) s = (.ok (f s), s) := rfl
@[simp] theorem ofExcept_apply (r : Except ε α) (s : σ) :
    (ofExcept r : Exec ε σ α) s = (r, s) := rfl
@[simp] theorem modify_apply (f : σ → σ) (s : σ) :
    (modify f : Exec ε σ Unit) s = (.ok (), f s) := rfl

theorem bind_apply (m : Exec ε σ α) (f : α → Exec ε σ β) (s : σ) :
    (m >>= f) s = match m s with
      | (.ok a, s') => f a s'
      | (.error e, s') => (.error e, s') := rfl

@[simp] theorem pure_bind_apply (a : α) (f : α → Exec ε σ β) (s : σ) :
    ((pure a : Exec ε σ α) >>= f) s = f a s := rfl

@[simp] theorem raise_bind_apply (e : ε) (f : α → Exec ε σ β) (s : σ) :
    ((raise e : Exec ε σ α) >>= f) s = (.error e, s) := rfl

@[simp] theorem gets_bind_apply (g : σ → α) (f : α → Exec ε σ β) (s : σ) :
    ((gets g : Exec ε σ α) >>= f) s = f (g s) s := rfl

@[simp] theorem ofExcept_ok_bind_apply (a : α) (f : α → Exec ε σ β) (s : σ) :
    ((ofExcept (.ok a) : Exec ε σ α) >>= f) s = f a s := rfl

@[simp] theorem ofExcept_error_bind_apply (e : ε) (f : α → Exec ε σ β) (s : σ) :
    ((ofExcept (.error e) : Exec ε σ α) >>= f) s = (.error e, s) := rfl

@[simp] theorem modify_bind_apply (g : σ → σ) (f : Unit → Exec ε σ β) (s : σ) :
    ((modify g : Exec ε σ Unit) >>= f) s = f () (g s) := rfl

theorem bind_of_ok {m : Exec ε σ α} {s s' : σ} {a : α} (h : m s = (.ok a, s'))
    (f : α → Exec ε σ β) : (m >>= f) s = f a s' := by
  rw [bind_apply, h]

theorem bind_of_error {m : Exec ε σ α} {s s' : σ} {e : ε} (h : m s = (.error e, s'))
    (f : α → Exec ε σ β) : (m >>= f) s = (.error e, s') := by
  rw [bind_apply, h]

/-- A sequence returns only when both parts do. -/
theorem bind_eq_ok {m : Exec ε σ α} {f : α → Exec ε σ β} {s s' : σ} {b : β}
    (h : (m >>= f) s = (.ok b, s')) :
    ∃ a s₁, m s = (.ok a, s₁) ∧ f a s₁ = (.ok b, s') := by
  rw [bind_apply] at h
  split at h
  · exact ⟨_, _, by assumption, h⟩
  · cases h

/-- A sequence raises in its first part or, after that returned, in its second. -/
theorem bind_eq_error {m : Exec ε σ α} {f : α → Exec ε σ β} {s s' : σ} {e : ε}
    (h : (m >>= f) s = (.error e, s')) :
    m s = (.error e, s') ∨ ∃ a s₁, m s = (.ok a, s₁) ∧ f a s₁ = (.error e, s') := by
  rw [bind_apply] at h
  split at h
  · exact Or.inr ⟨_, _, by assumption, h⟩
  · rename_i hm
    cases h
    exact Or.inl hm

theorem tryExcept_of_ok {m : Exec ε σ α} {s s' : σ} {a : α} (h : m s = (.ok a, s'))
    (handler : ε → Exec ε σ α) : tryExcept m handler s = (.ok a, s') := by
  rw [tryExcept, h]

theorem tryExcept_of_error {m : Exec ε σ α} {s s' : σ} {e : ε} (h : m s = (.error e, s'))
    (handler : ε → Exec ε σ α) : tryExcept m handler s = handler e s' := by
  rw [tryExcept, h]

theorem tryFinally_of_ok {m : Exec ε σ α} {f : Exec ε σ Unit} {s s₁ s₂ : σ}
    {r : Except ε α} (hm : m s = (r, s₁)) (hf : f s₁ = (.ok (), s₂)) :
    tryFinally m f s = (r, s₂) := by
  simp only [tryFinally, hm, hf]

theorem tryFinally_of_error {m : Exec ε σ α} {f : Exec ε σ Unit} {s s₁ s₂ : σ}
    {r : Except ε α} {e : ε} (hm : m s = (r, s₁)) (hf : f s₁ = (.error e, s₂)) :
    tryFinally m f s = (.error e, s₂) := by
  simp only [tryFinally, hm, hf]

/-- The state a `try … finally` ends in is the one its cleanup ends in. -/
theorem tryFinally_state (m : Exec ε σ α) (f : Exec ε σ Unit) (s : σ) :
    (tryFinally m f s).2 = (f (m s).2).2 := by
  rcases hm : m s with ⟨r, s₁⟩
  rcases hf : f s₁ with ⟨⟨e⟩ | ⟨u⟩, s₂⟩ <;> simp [tryFinally, hm, hf]

/-- A `try … finally` that returns had a body and a cleanup that returned. -/
theorem tryFinally_eq_ok {m : Exec ε σ α} {f : Exec ε σ Unit} {s s' : σ} {a : α}
    (h : tryFinally m f s = (.ok a, s')) :
    ∃ s₁, m s = (.ok a, s₁) ∧ f s₁ = (.ok (), s') := by
  rcases hm : m s with ⟨r, s₁⟩
  rcases hf : f s₁ with ⟨⟨e⟩ | ⟨u⟩, s₂⟩
  · rw [tryFinally_of_error hm hf] at h
    cases h
  · rw [tryFinally_of_ok hm hf] at h
    cases h
    exact ⟨s₁, rfl, hf⟩

end Apply

/-- `Q` of a returned result, `R` of a raised one. -/
def Holds (Q : α → σ → Prop) (R : ε → σ → Prop) : Except ε α × σ → Prop
  | (.ok a, s) => Q a s
  | (.error e, s) => R e s

/-- Each postcondition may be replaced by one that it implies. -/
theorem Holds.imp {Q Q' : α → σ → Prop} {R R' : ε → σ → Prop} {r : Except ε α × σ}
    (h : Holds Q R r) (hQ : ∀ a s, Q a s → Q' a s) (hR : ∀ e s, R e s → R' e s) :
    Holds Q' R' r := by
  obtain ⟨e | a, s⟩ := r
  · exact hR e s h
  · exact hQ a s h

/-- Partial correctness with a postcondition for each way a computation ends. -/
def Triple (P : σ → Prop) (m : Exec ε σ α) (Q : α → σ → Prop) (R : ε → σ → Prop) : Prop :=
  ∀ s, P s → Holds Q R (m s)

namespace Triple

variable {P P' : σ → Prop} {Q Q' : α → σ → Prop} {R R' : ε → σ → Prop}
variable {m : Exec ε σ α}

theorem ok {s s' : σ} {a : α} (h : Triple P m Q R) (hP : P s) (hm : m s = (.ok a, s')) :
    Q a s' := by
  have := h s hP
  rwa [hm] at this

theorem error {s s' : σ} {e : ε} (h : Triple P m Q R) (hP : P s) (hm : m s = (.error e, s')) :
    R e s' := by
  have := h s hP
  rwa [hm] at this

/-- A postcondition for both ways of ending holds of the state reached. -/
theorem state {S : σ → Prop} {s : σ} (h : Triple P m (fun _ => S) (fun _ => S)) (hs : P s) :
    S (m s).2 := by
  have := h s hs
  revert this
  rcases m s with ⟨⟨e⟩ | ⟨a⟩, s'⟩ <;> exact id

theorem weaken (h : Triple P m Q R) (hP : ∀ s, P' s → P s) (hQ : ∀ a s, Q a s → Q' a s)
    (hR : ∀ e s, R e s → R' e s) : Triple P' m Q' R' := by
  intro s hs
  exact (h s (hP s hs)).imp hQ hR

theorem pure (a : α) : Triple (Q a) (Pure.pure a : Exec ε σ α) Q R := fun _ hs => hs

theorem raise (e : ε) : Triple (R e) (Exec.raise e : Exec ε σ α) Q R := fun _ hs => hs

/-- Returning a value keeps whatever held before. -/
theorem skip (a : α) : Triple P (Pure.pure a : Exec ε σ α) (fun _ => P) R := fun _ hs => hs

/-- Raising keeps whatever held before. -/
theorem fail (e : ε) : Triple P (Exec.raise e : Exec ε σ α) Q (fun _ => P) := fun _ hs => hs

/-- Strengthening the precondition alone. -/
theorem pre (h : Triple P m Q R) (hP : ∀ s, P' s → P s) : Triple P' m Q R :=
  h.weaken hP (fun _ _ hq => hq) (fun _ _ hr => hr)

theorem and (h : Triple P m Q R) (h' : Triple P' m Q' R') :
    Triple (fun s => P s ∧ P' s) m (fun a s => Q a s ∧ Q' a s) (fun e s => R e s ∧ R' e s) := by
  intro s hs
  have h₁ := h s hs.1
  have h₂ := h' s hs.2
  revert h₁ h₂
  rcases m s with ⟨⟨e⟩ | ⟨a⟩, s'⟩ <;> exact fun h₁ h₂ => ⟨h₁, h₂⟩

theorem gets (f : σ → α) : Triple (fun s => Q (f s) s) (Exec.gets f : Exec ε σ α) Q R :=
  fun _ hs => hs

theorem ofExcept (r : Except ε α) :
    Triple P (Exec.ofExcept r : Exec ε σ α) (fun a s => r = .ok a ∧ P s)
      (fun e s => r = .error e ∧ P s) := by
  intro s hs
  cases r <;> exact ⟨rfl, hs⟩

theorem modify (f : σ → σ) {Q : Unit → σ → Prop} :
    Triple (fun s => Q () (f s)) (Exec.modify f : Exec ε σ Unit) Q R := fun _ hs => hs

theorem bind {f : α → Exec ε σ β} {S : α → σ → Prop} {Q : β → σ → Prop}
    (hm : Triple P m S R) (hf : ∀ a, Triple (S a) (f a) Q R) : Triple P (m >>= f) Q R := by
  intro s hs
  have h := hm s hs
  rw [bind_apply]
  rcases hms : m s with ⟨⟨e⟩ | ⟨a⟩, s'⟩ <;> rw [hms] at h
  · exact h
  · exact hf a s' h

theorem tryExcept {handler : ε → Exec ε σ α} {E : ε → σ → Prop}
    (hm : Triple P m Q E) (hh : ∀ e, Triple (E e) (handler e) Q R) :
    Triple P (Exec.tryExcept m handler) Q R := by
  intro s hs
  have h := hm s hs
  rcases hms : m s with ⟨⟨e⟩ | ⟨a⟩, s'⟩ <;> rw [hms] at h
  · rw [tryExcept_of_error hms]
    exact hh e s' h
  · rw [tryExcept_of_ok hms]
    exact h

theorem tryFinally {f : Exec ε σ Unit} {S : α → σ → Prop} {E : ε → σ → Prop}
    (hm : Triple P m S E) (hok : ∀ a, Triple (S a) f (fun _ => Q a) R)
    (herr : ∀ e, Triple (E e) f (fun _ => R e) R) : Triple P (Exec.tryFinally m f) Q R := by
  intro s hs
  have h := hm s hs
  rcases hms : m s with ⟨r, s₁⟩
  rcases hfs : f s₁ with ⟨⟨e'⟩ | ⟨u⟩, s₂⟩
  · rw [tryFinally_of_error hms hfs]
    rcases r with e | a <;> rw [hms] at h
    · exact (herr e).error h hfs
    · exact (hok a).error h hfs
  · rw [tryFinally_of_ok hms hfs]
    rcases r with e | a <;> rw [hms] at h
    · exact (herr e).ok h hfs
    · exact (hok a).ok h hfs

theorem zoom {get : σ → τ} {put : τ → σ → σ} {m : Exec ε τ α}
    (h : ∀ s, P s → Holds (fun a t => Q a (put t s)) (fun e t => R e (put t s)) (m (get s))) :
    Triple P (Exec.zoom get put m) Q R := by
  intro s hs
  have := h s hs
  revert this
  simp only [Exec.zoom]
  rcases m (get s) with ⟨⟨e⟩ | ⟨a⟩, t⟩ <;> exact id

/-- The loop rule: the invariant is indexed by the elements already processed. -/
theorem foldEach {f : γ → β → Exec ε σ γ} {I : List β → γ → σ → Prop} :
    ∀ (xs done : List β) (acc : γ),
      (∀ pre x post acc, done ++ xs = pre ++ x :: post → done.length ≤ pre.length →
        Triple (I pre acc) (f acc x) (I (pre ++ [x])) R) →
      Triple (I done acc) (Exec.foldEach f acc xs) (I (done ++ xs)) R
  | [], done, acc, _ => by
      simpa only [Exec.foldEach, List.append_nil] using Triple.pure acc
  | x :: xs, done, acc, hf => by
      refine Triple.bind (hf done x xs acc rfl le_rfl) fun acc' => ?_
      have ih := foldEach (I := I) xs (done ++ [x]) acc' (fun pre y post b he hl =>
        hf pre y post b (by simpa using he) (by simp at hl; omega))
      simpa using ih

theorem forEach (xs : List β) {f : β → Exec ε σ Unit} {I : List β → σ → Prop}
    (hf : ∀ pre x post, xs = pre ++ x :: post →
      Triple (I pre) (f x) (fun _ => I (pre ++ [x])) R) :
    Triple (I []) (Exec.forEach xs f) (fun _ => I xs) R := by
  have h := foldEach (f := fun (_ : Unit) x => f x) (I := fun pre _ => I pre) (R := R)
    xs [] () (fun pre x post _ he _ => hf pre x post (by simpa using he))
  rwa [List.nil_append] at h

end Triple

/-! ## Invariants -/

/-- The computation keeps `I`, whether it returns or raises. -/
abbrev Keeps (I : σ → Prop) (m : Exec ε σ α) : Prop := Triple I m (fun _ => I) (fun _ => I)

namespace Keeps

variable {I : σ → Prop} {m : Exec ε σ α}

theorem state (h : Keeps I m) {s : σ} (hs : I s) : I (m s).2 := Triple.state h hs

theorem of_state (h : ∀ s, I s → I (m s).2) : Keeps I m := by
  intro s hs
  have := h s hs
  revert this
  rcases m s with ⟨⟨e⟩ | ⟨a⟩, s'⟩ <;> exact id

theorem pure (a : α) : Keeps I (Pure.pure a : Exec ε σ α) := Triple.skip a

theorem raise (e : ε) : Keeps I (Exec.raise e : Exec ε σ α) := Triple.fail e

theorem gets (f : σ → α) : Keeps I (Exec.gets f : Exec ε σ α) := fun _ hs => hs

theorem ofExcept (r : Except ε α) : Keeps I (Exec.ofExcept r : Exec ε σ α) := by
  intro s hs
  cases r <;> exact hs

theorem modify {f : σ → σ} (h : ∀ s, I s → I (f s)) :
    Keeps I (Exec.modify f : Exec ε σ Unit) := h

theorem bind {f : α → Exec ε σ β} (hm : Keeps I m) (hf : ∀ a, Keeps I (f a)) :
    Keeps I (m >>= f) := Triple.bind hm hf

theorem tryExcept {handler : ε → Exec ε σ α} (hm : Keeps I m) (hh : ∀ e, Keeps I (handler e)) :
    Keeps I (Exec.tryExcept m handler) := Triple.tryExcept hm hh

theorem tryFinally {f : Exec ε σ Unit} (hm : Keeps I m) (hf : Keeps I f) :
    Keeps I (Exec.tryFinally m f) := Triple.tryFinally hm (fun _ => hf) (fun _ => hf)

theorem foldEach {f : γ → β → Exec ε σ γ} {xs : List β} (acc : γ)
    (hf : ∀ x ∈ xs, ∀ acc, Keeps I (f acc x)) : Keeps I (Exec.foldEach f acc xs) := by
  induction xs generalizing acc with
  | nil => exact Keeps.pure acc
  | cons x xs ih =>
    exact (hf x List.mem_cons_self acc).bind fun acc' =>
      ih acc' fun y hy => hf y (List.mem_cons_of_mem _ hy)

theorem forEach {f : β → Exec ε σ Unit} {xs : List β} (hf : ∀ x ∈ xs, Keeps I (f x)) :
    Keeps I (Exec.forEach xs f) := Keeps.foldEach () fun x hx _ => hf x hx

end Keeps

/-- From a state with `I` the computation never returns, and it keeps `I`. -/
def Fails (I : σ → Prop) (m : Exec ε σ α) : Prop := Triple I m (fun _ _ => False) (fun _ => I)

namespace Fails

variable {I : σ → Prop} {m : Exec ε σ α}

theorem keeps (h : Fails I m) : Keeps I m :=
  Triple.weaken h (fun _ hs => hs) (fun _ _ hfalse => hfalse.elim) (fun _ _ hs => hs)

/-- What comes after it does not matter. -/
theorem bind {f : α → Exec ε σ β} (h : Fails I m) : Fails I (m >>= f) :=
  Triple.bind h fun _ _ hfalse => hfalse.elim

theorem after {f : α → Exec ε σ β} (hm : Keeps I m) (hf : ∀ a, Fails I (f a)) :
    Fails I (m >>= f) := Triple.bind hm hf

theorem raise (e : ε) : Fails I (Exec.raise e : Exec ε σ α) := Triple.fail e

theorem tryExcept {handler : ε → Exec ε σ α} (hm : Fails I m) (hh : ∀ e, Fails I (handler e)) :
    Fails I (Exec.tryExcept m handler) := Triple.tryExcept hm hh

/-- From a state with `I` there is an error, and the state that it leaves has `I`. -/
theorem error (h : Fails I m) {s : σ} (hs : I s) : ∃ e s', m s = (.error e, s') ∧ I s' := by
  have hrun := h s hs
  rcases hm : m s with ⟨⟨e⟩ | ⟨a⟩, s'⟩ <;> rw [hm] at hrun
  · exact ⟨e, s', rfl, hrun⟩
  · exact hrun.elim

end Fails

end Exec

end Library
