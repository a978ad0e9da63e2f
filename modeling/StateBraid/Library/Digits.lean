import Mathlib.Data.List.Lex
import Mathlib.Data.Nat.Digits.Lemmas
import Mathlib.Order.Interval.Set.Defs

/-!
# Numerals of a fixed width

Numbers written in a fixed number of digits, the highest first, are in dictionary order
when the digits themselves are in order.
-/
namespace Library

variable {α : Type} [LinearOrder α]

/-- Digit lists of one length, the highest digit first, compare like their values. -/
theorem map_lt_map_iff_ofDigits {b : ℕ} (hb : 1 < b) {f : ℕ → α} (hf : StrictMonoOn f (Set.Iio b))
    {l l' : List ℕ} (hlength : l.length = l'.length) (hl : ∀ d ∈ l, d < b)
    (hl' : ∀ d ∈ l', d < b) :
    l.map f < l'.map f ↔ Nat.ofDigits b l.reverse < Nat.ofDigits b l'.reverse := by
  induction l generalizing l' with
  | nil =>
    obtain rfl := List.length_eq_zero_iff.mp hlength.symm
    simp
  | cons d l ih =>
    cases l' with
    | nil => simp at hlength
    | cons d' l' =>
      obtain ⟨hd, hrest⟩ := List.forall_mem_cons.mp hl
      obtain ⟨hd', hrest'⟩ := List.forall_mem_cons.mp hl'
      have hsame : l.length = l'.length := Nat.succ.inj hlength
      -- the digits below the first weigh less than one unit of it
      have hlow : Nat.ofDigits b l.reverse < b ^ l.length := by
        have := Nat.ofDigits_lt_base_pow_length hb (l := l.reverse) (by simpa using hrest)
        simpa using this
      have hlow' : Nat.ofDigits b l'.reverse < b ^ l.length := by
        have := Nat.ofDigits_lt_base_pow_length hb (l := l'.reverse) (by simpa using hrest')
        simpa [hsame] using this
      rw [List.map_cons, List.map_cons, List.cons_lt_cons_iff, ih hsame hrest hrest',
        hf.lt_iff_lt hd hd', hf.injOn.eq_iff hd hd', Nat.ofDigits_reverse_cons,
        Nat.ofDigits_reverse_cons, ← hsame]
      rcases lt_trichotomy d d' with hlt | rfl | hgt
      · have hstep : b ^ l.length * (d + 1) ≤ b ^ l.length * d' := Nat.mul_le_mul_left _ hlt
        rw [Nat.mul_succ] at hstep
        exact iff_of_true (Or.inl hlt) (by omega)
      · simp
      · have hstep : b ^ l.length * (d' + 1) ≤ b ^ l.length * d := Nat.mul_le_mul_left _ hgt
        rw [Nat.mul_succ] at hstep
        exact iff_of_false (by omega) (by omega)

/-- The numeral of `n` in `width` digits of base `b`, the highest first. -/
def numeral (b width : ℕ) (f : ℕ → α) (n : ℕ) : List α :=
  (Nat.digitsAppend b width n).reverse.map f

/-- Dictionary order is the order of the numbers. -/
theorem numeral_lt_iff {b width m n : ℕ} (hb : 1 < b) {f : ℕ → α}
    (hf : StrictMonoOn f (Set.Iio b)) (hm : m < b ^ width) (hn : n < b ^ width) :
    numeral b width f m < numeral b width f n ↔ m < n := by
  have hdigits (k : ℕ) : ∀ d ∈ (Nat.digitsAppend b width k).reverse, d < b := fun d hd =>
    Nat.lt_of_mem_digitsAppend hb width d (List.mem_reverse.mp hd)
  have hvalue (k : ℕ) : Nat.ofDigits b (Nat.digitsAppend b width k) = k := by
    rw [Nat.digitsAppend, Nat.ofDigits_append_replicate_zero, Nat.ofDigits_digits]
  have hlength : (Nat.digitsAppend b width m).reverse.length =
      (Nat.digitsAppend b width n).reverse.length := by
    rw [List.length_reverse, List.length_reverse, Nat.length_digitsAppend hb width hm,
      Nat.length_digitsAppend hb width hn]
  rw [numeral, numeral, map_lt_map_iff_ofDigits hb hf hlength (hdigits m) (hdigits n),
    List.reverse_reverse, List.reverse_reverse, hvalue, hvalue]

end Library
