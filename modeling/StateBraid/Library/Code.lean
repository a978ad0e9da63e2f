import StateBraid.Library.Exec

/-!
# Code under one reentrant lock

A `Code` is what remains of a call: indivisible steps on a shared state, interleaved
with taking and giving back one lock. Run alone it is an `Exec`, construct by
construct. `Inside` and `Critical` say that it touches the state only while it holds
the lock, and that it gives the lock back as often as it takes it, on every path.
-/
namespace Library

/-- The rest of a call over a shared state `σ`. An `act` changes the state it finds
and goes on with what it has read there. -/
inductive Code (ε σ α : Type)
  | ret (result : Except ε α)
  | act (effect : σ → σ) (next : σ → Code ε σ α)
  | acquire (next : Code ε σ α)
  | release (next : Code ε σ α)

namespace Code

variable {ε σ α β γ : Type}

/-- Continue with what a code ends with, returned or raised. -/
def andThen : Code ε σ α → (Except ε α → Code ε σ β) → Code ε σ β
  | .ret r, f => f r
  | .act effect next, f => .act effect fun s => (next s).andThen f
  | .acquire next, f => .acquire (next.andThen f)
  | .release next, f => .release (next.andThen f)

instance : Monad (Code ε σ) where
  pure a := .ret (.ok a)
  bind c f := c.andThen fun
    | .ok a => f a
    | .error e => .ret (.error e)

/-- One indivisible step. -/
def atom (m : Exec ε σ α) : Code ε σ α := .act (fun s => (m s).2) fun s => .ret (m s).1

/-- Raise an exception. -/
def raise (e : ε) : Code ε σ α := .ret (.error e)

/-- `try c except e: handler e`. -/
def tryExcept (c : Code ε σ α) (handler : ε → Code ε σ α) : Code ε σ α :=
  c.andThen fun
    | .ok a => .ret (.ok a)
    | .error e => handler e

/-- `with lock: c`; the lock is given back when `c` returns and when it raises. -/
def withLock (c : Code ε σ α) : Code ε σ α :=
  .acquire (c.andThen fun r => .release (.ret r))

/-- A loop with an accumulator. -/
def foldEach (f : γ → β → Code ε σ γ) : γ → List β → Code ε σ γ
  | acc, [] => pure acc
  | acc, x :: xs => f acc x >>= fun acc' => foldEach f acc' xs

/-- A loop over a list. -/
def forEach (xs : List β) (f : β → Code ε σ Unit) : Code ε σ Unit :=
  foldEach (fun _ x => f x) () xs

/-- The code run alone: nobody else moves and the lock does not matter. -/
def run : Code ε σ α → Exec ε σ α
  | .ret r, s => (r, s)
  | .act effect next, s => (next s).run (effect s)
  | .acquire next, s => next.run s
  | .release next, s => next.run s

@[simp] theorem run_ret (r : Except ε α) (s : σ) : (ret r : Code ε σ α).run s = (r, s) := rfl

theorem run_andThen (c : Code ε σ α) (f : Except ε α → Code ε σ β) (s : σ) :
    (c.andThen f).run s = (f (c.run s).1).run (c.run s).2 := by
  induction c generalizing s with
  | ret r => rfl
  | act effect next ih => exact ih s (effect s)
  | acquire next ih => exact ih s
  | release next ih => exact ih s

@[simp] theorem run_pure (a : α) : (pure a : Code ε σ α).run = pure a := rfl

@[simp] theorem run_bind (c : Code ε σ α) (f : α → Code ε σ β) :
    (c >>= f).run = c.run >>= fun a => (f a).run := by
  funext s
  refine (run_andThen c _ s).trans ?_
  rw [Exec.bind_apply]
  rcases c.run s with ⟨⟨e⟩ | ⟨a⟩, s'⟩ <;> rfl

@[simp] theorem run_atom (m : Exec ε σ α) : (atom m).run = m := rfl

@[simp] theorem run_raise (e : ε) : (raise e : Code ε σ α).run = Exec.raise e := rfl

@[simp] theorem run_tryExcept (c : Code ε σ α) (handler : ε → Code ε σ α) :
    (c.tryExcept handler).run = Exec.tryExcept c.run fun e => (handler e).run := by
  funext s
  refine (run_andThen c _ s).trans ?_
  rw [Exec.tryExcept]
  rcases c.run s with ⟨⟨e⟩ | ⟨a⟩, s'⟩ <;> rfl

@[simp] theorem run_withLock (c : Code ε σ α) : c.withLock.run = c.run := by
  funext s
  exact run_andThen c _ s

@[simp] theorem run_foldEach (f : γ → β → Code ε σ γ) (acc : γ) (xs : List β) :
    (foldEach f acc xs).run = Exec.foldEach (fun acc x => (f acc x).run) acc xs := by
  induction xs generalizing acc with
  | nil => rfl
  | cons x xs ih => simp only [foldEach, Exec.foldEach, run_bind, ih]

@[simp] theorem run_forEach (xs : List β) (f : β → Code ε σ Unit) :
    (forEach xs f).run = Exec.forEach xs fun x => (f x).run :=
  run_foldEach _ () xs

/-! ### Lock discipline -/

/-- From lock depth `d` the code steps, and takes the lock again, only while it holds the
lock, and it ends at depth `base`. -/
def Inside (base : ℕ) : Code ε σ α → ℕ → Prop
  | .ret _, d => d = base
  | .act _ next, d => 0 < d ∧ ∀ s, (next s).Inside base d
  | .acquire next, d => 0 < d ∧ next.Inside base (d + 1)
  | .release next, d => 0 < d ∧ next.Inside base (d - 1)

/-- The whole code is one critical section. -/
def Critical (c : Code ε σ α) : Prop := ∃ next, c = .acquire next ∧ next.Inside 0 1

theorem Inside.andThen {c : Code ε σ α} {f : Except ε α → Code ε σ β} {b b' d : ℕ}
    (hc : c.Inside b d) (hf : ∀ r, (f r).Inside b' b) : (c.andThen f).Inside b' d := by
  induction c generalizing d with
  | ret r =>
    have hd : d = b := hc
    exact hd ▸ hf r
  | act effect next ih => exact ⟨hc.1, fun s => ih s (hc.2 s)⟩
  | acquire next ih => exact ⟨hc.1, ih hc.2⟩
  | release next ih => exact ⟨hc.1, ih hc.2⟩

theorem Inside.pure (a : α) (d : ℕ) : (Pure.pure a : Code ε σ α).Inside d d := rfl

theorem Inside.raise (e : ε) (d : ℕ) : (Code.raise e : Code ε σ α).Inside d d := rfl

theorem Inside.atom (m : Exec ε σ α) (d : ℕ) : (Code.atom m).Inside (d + 1) (d + 1) :=
  ⟨Nat.succ_pos d, fun _ => rfl⟩

theorem Inside.bind {c : Code ε σ α} {f : α → Code ε σ β} {d : ℕ}
    (hc : c.Inside d d) (hf : ∀ a, (f a).Inside d d) : (c >>= f).Inside d d := by
  refine hc.andThen fun r => ?_
  cases r with
  | ok a => exact hf a
  | error e => rfl

theorem Inside.tryExcept {c : Code ε σ α} {handler : ε → Code ε σ α} {d : ℕ}
    (hc : c.Inside d d) (hh : ∀ e, (handler e).Inside d d) :
    (c.tryExcept handler).Inside d d := by
  refine hc.andThen fun r => ?_
  cases r with
  | ok a => rfl
  | error e => exact hh e

theorem Inside.foldEach {f : γ → β → Code ε σ γ} {d : ℕ}
    (hf : ∀ acc x, (f acc x).Inside d d) (acc : γ) (xs : List β) :
    (Code.foldEach f acc xs).Inside d d := by
  induction xs generalizing acc with
  | nil => rfl
  | cons x xs ih => exact (hf acc x).bind ih

theorem Inside.forEach {f : β → Code ε σ Unit} {d : ℕ} (hf : ∀ x, (f x).Inside d d)
    (xs : List β) : (Code.forEach xs f).Inside d d := Inside.foldEach (fun _ => hf) () xs

/-- Taking the lock again inside a critical section gives it back once. -/
theorem Inside.withLock {c : Code ε σ α} {d : ℕ} (hc : c.Inside (d + 2) (d + 2)) :
    c.withLock.Inside (d + 1) (d + 1) :=
  ⟨Nat.succ_pos d, hc.andThen fun _ => ⟨Nat.succ_pos _, rfl⟩⟩

theorem Critical.withLock {c : Code ε σ α} (hc : c.Inside 1 1) : c.withLock.Critical :=
  ⟨_, rfl, hc.andThen fun _ => ⟨Nat.one_pos, rfl⟩⟩

/-- What is left of a code after one more step. -/
inductive Rest : Code ε σ α → Code ε σ α → Prop
  | act (effect : σ → σ) (next : σ → Code ε σ α) (s : σ) : Rest (next s) (.act effect next)
  | acquire (next : Code ε σ α) : Rest next (.acquire next)
  | release (next : Code ε σ α) : Rest next (.release next)

theorem rest_wellFounded : WellFounded (Rest (ε := ε) (σ := σ) (α := α)) := by
  refine ⟨fun c => ?_⟩
  induction c with
  | ret r => exact ⟨_, fun _ h => by cases h⟩
  | act effect next ih => exact ⟨_, fun _ h => by cases h with | act _ _ s => exact ih s⟩
  | acquire next ih => exact ⟨_, fun _ h => by cases h; exact ih⟩
  | release next ih => exact ⟨_, fun _ h => by cases h; exact ih⟩

/-! ### What holds throughout a run -/

/-- Every state a code passes through when it runs alone from `s` satisfies `I`. -/
def Along (I : σ → Prop) : Code ε σ α → σ → Prop
  | .ret _, _ => True
  | .act effect next, s => I (effect s) ∧ (next s).Along I (effect s)
  | .acquire next, s => next.Along I s
  | .release next, s => next.Along I s

section Along

variable {I J : σ → Prop}

theorem Along.final {c : Code ε σ α} {s : σ} (h : c.Along I s) (hs : I s) : I (c.run s).2 := by
  induction c generalizing s with
  | ret r => exact hs
  | act effect next ih => exact ih s h.2 h.1
  | acquire next ih => exact ih h hs
  | release next ih => exact ih h hs

theorem Along.mono {c : Code ε σ α} {s : σ} (h : c.Along J s) (hJ : ∀ s, J s → I s) :
    c.Along I s := by
  induction c generalizing s with
  | ret r => trivial
  | act effect next ih => exact ⟨hJ _ h.1, ih s h.2⟩
  | acquire next ih => exact ih h
  | release next ih => exact ih h

theorem Along.andThen {c : Code ε σ α} {f : Except ε α → Code ε σ β} {s : σ} (hc : c.Along I s)
    (hf : (f (c.run s).1).Along I (c.run s).2) : (c.andThen f).Along I s := by
  induction c generalizing s with
  | ret r => exact hf
  | act effect next ih => exact ⟨hc.1, ih s hc.2 hf⟩
  | acquire next ih => exact ih hc hf
  | release next ih => exact ih hc hf

theorem Along.bind {c : Code ε σ α} {f : α → Code ε σ β} {s : σ} (hc : c.Along I s)
    (hf : ∀ a s', c.run s = (.ok a, s') → (f a).Along I s') : (c >>= f).Along I s := by
  refine hc.andThen ?_
  rcases hrun : c.run s with ⟨⟨e⟩ | ⟨a⟩, s'⟩
  · trivial
  · exact hf a s' hrun

theorem Along.gets_bind {g : σ → α} {f : α → Code ε σ β} {s : σ} (hs : I s)
    (hf : (f (g s)).Along I s) : (Code.atom (Exec.gets g) >>= f).Along I s := ⟨hs, hf⟩

theorem Along.tryExcept {c : Code ε σ α} {handler : ε → Code ε σ α} {s : σ} (hc : c.Along I s)
    (hh : ∀ e s', c.run s = (.error e, s') → (handler e).Along I s') :
    (c.tryExcept handler).Along I s := by
  refine hc.andThen ?_
  rcases hrun : c.run s with ⟨⟨e⟩ | ⟨a⟩, s'⟩
  · exact hh e s' hrun
  · trivial

theorem Along.withLock {c : Code ε σ α} {s : σ} (hc : c.Along I s) : c.withLock.Along I s :=
  Along.andThen (c := c) hc trivial

/-- A code that never leaves `I`, from any state in `I`. -/
def Stays (I : σ → Prop) (c : Code ε σ α) : Prop := ∀ s, I s → c.Along I s

theorem Stays.pure (a : α) : Stays I (Pure.pure a : Code ε σ α) := fun _ _ => trivial

theorem Stays.atom {m : Exec ε σ α} (h : Exec.Keeps I m) : Stays I (Code.atom m) :=
  fun _ hs => ⟨h.state hs, trivial⟩

theorem Stays.bind {c : Code ε σ α} {f : α → Code ε σ β} (hc : Stays I c)
    (hf : ∀ a, Stays I (f a)) : Stays I (c >>= f) := by
  intro s hs
  refine (hc s hs).bind fun a s' hrun => hf a s' ?_
  have hfinal := (hc s hs).final hs
  rwa [hrun] at hfinal

theorem Stays.tryExcept {c : Code ε σ α} {handler : ε → Code ε σ α} (hc : Stays I c)
    (hh : ∀ e, Stays I (handler e)) : Stays I (c.tryExcept handler) := by
  intro s hs
  refine (hc s hs).tryExcept fun e s' hrun => hh e s' ?_
  have hfinal := (hc s hs).final hs
  rwa [hrun] at hfinal

theorem Stays.foldEach {f : γ → β → Code ε σ γ} (hf : ∀ acc x, Stays I (f acc x)) (acc : γ)
    (xs : List β) : Stays I (Code.foldEach f acc xs) := by
  induction xs generalizing acc with
  | nil => exact Stays.pure acc
  | cons x xs ih => exact (hf acc x).bind ih

theorem Stays.forEach {f : β → Code ε σ Unit} (hf : ∀ x, Stays I (f x)) (xs : List β) :
    Stays I (Code.forEach xs f) := Stays.foldEach (fun _ => hf) () xs

end Along

end Code

end Library
