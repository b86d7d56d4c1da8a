import Mathlib.Algebra.Group.Nat.Defs
import ShellCompletion.Number.Binary64

/-! Decimals as floating-point numbers. The main statements say that a decimal is never taken for
what is not a number, and that the decimal with the other sign is the number with the other sign. -/
namespace ShellCompletion.Binary64

variable {num den : Nat}

/-! ### Quotients -/

/-- The whole part of a scaled quotient. -/
def wholePart (num den : Nat) (e : Int) : Nat := (scaled num den e).1 / (scaled num den e).2

theorem wholePart_natCast (k : Nat) : wholePart num den k = num / (den * 2 ^ k) := by
  simp [wholePart, scaled]

theorem wholePart_neg (k : Nat) : wholePart num den (-k) = num * 2 ^ k / den := by
  cases k with
  | zero => simp [wholePart, scaled]
  | succ k =>
    have negative : ¬(0 : Int) ≤ -((k + 1 : Nat) : Int) := by omega
    rw [wholePart, scaled, if_neg negative, Int.neg_neg, Int.toNat_natCast]
    rfl

/-- The next power of two halves a quotient. -/
theorem wholePart_succ (e : Int) : wholePart num den (e + 1) = wholePart num den e / 2 := by
  obtain ⟨k, rfl⟩ | ⟨k, rfl⟩ : (∃ k : Nat, e = k) ∨ ∃ k : Nat, e = -((k + 1 : Nat) : Int) := by
    obtain h | h := Int.lt_or_le e 0
    · exact .inr ⟨(-e - 1).toNat, by omega⟩
    · exact .inl ⟨e.toNat, by omega⟩
  · rw [← Int.natCast_add_one, wholePart_natCast, wholePart_natCast, Nat.div_div_eq_div_mul,
      Nat.pow_succ, Nat.mul_assoc]
  · have next : -((k + 1 : Nat) : Int) + 1 = -(k : Int) := by omega
    rw [next, wholePart_neg, wholePart_neg, Nat.div_div_eq_div_mul, Nat.pow_succ, ← Nat.mul_assoc,
      Nat.mul_div_mul_right _ _ (by decide)]

theorem wholePart_le_of_le {e e' : Int} (h : e ≤ e') : wholePart num den e' ≤ wholePart num den e := by
  obtain ⟨k, rfl⟩ : ∃ k : Nat, e' = e + k := ⟨(e' - e).toNat, by omega⟩
  induction k with
  | zero => simp
  | succ k ih =>
    rw [Int.natCast_add_one, ← Int.add_assoc, wholePart_succ]
    exact Nat.le_trans (Nat.div_le_self _ 2) (ih (by omega))

/-- The highest bits of two numbers bound their quotient. -/
theorem wholePart_log2_lt (hd : den ≠ 0) :
    wholePart num den ((Nat.log2 num : Int) - Nat.log2 den - 53) < 2 ^ 54 := by
  have hnum : num < 2 ^ (num.log2 + 1) := Nat.lt_log2_self
  have hden : 2 ^ den.log2 ≤ den := Nat.log2_self_le hd
  generalize num.log2 = a at *
  generalize den.log2 = b at *
  obtain h | h := Nat.le_total (b + 53) a
  · have he : (a : Int) - b - 53 = ((a - b - 53 : Nat) : Int) := by omega
    rw [he, wholePart_natCast]
    refine Nat.div_lt_of_lt_mul (Nat.lt_of_lt_of_le hnum ?_)
    calc 2 ^ (a + 1) = 2 ^ b * 2 ^ (a - b - 53) * 2 ^ 54 := by
          rw [← Nat.pow_add, ← Nat.pow_add]
          congr 1
          omega
      _ ≤ den * 2 ^ (a - b - 53) * 2 ^ 54 := Nat.mul_le_mul_right _ (Nat.mul_le_mul_right _ hden)
  · have he : (a : Int) - b - 53 = -((b + 53 - a : Nat) : Int) := by omega
    rw [he, wholePart_neg]
    refine Nat.div_lt_of_lt_mul ?_
    calc num * 2 ^ (b + 53 - a) < 2 ^ (a + 1) * 2 ^ (b + 53 - a) :=
          Nat.mul_lt_mul_of_pos_right hnum (Nat.two_pow_pos _)
      _ = 2 ^ b * 2 ^ 54 := by
          rw [← Nat.pow_add, ← Nat.pow_add]
          congr 1
          omega
      _ ≤ den * 2 ^ 54 := Nat.mul_le_mul_right _ hden

/-- The mantissa of a quotient fits. -/
theorem wholePart_lastBit_lt (hd : den ≠ 0) : wholePart num den (lastBit num den) < 2 * unit := by
  have high : wholePart num den ((Nat.log2 num : Int) - Nat.log2 den - 53) < 2 ^ 54 :=
    wholePart_log2_lt hd
  have le_max {e : Int} (h : wholePart num den e < 2 * unit) :
      wholePart num den (max e (-1074)) < 2 * unit :=
    Nat.lt_of_le_of_lt (wholePart_le_of_le (Int.le_max_left e _)) h
  refine le_max ?_
  split
  · rw [wholePart_succ]
    unfold unit
    omega
  · next h => exact Nat.not_le.1 h

/-! ### Bits -/

/-- Bits up to those of infinity are a number. -/
theorem isNaN_ofBits {n : Nat} (h : n ≤ 0x7FF * unit) : (ofBits n).isNaN = false := by
  have word : (ofBits n).bits.toNat = n := by
    unfold unit at h
    rw [ofBits, UInt64.toNat_ofNat', Nat.mod_eq_of_lt (by omega)]
  have number : (ofBits n).meaning ≠ .nan := by
    unfold meaning
    simp only [word]
    split
    · next hexp =>
      have zero : n % unit = 0 := by
        unfold unit at *
        omega
      rw [if_pos zero]
      exact nofun
    · split <;> exact nofun
  simpa [isNaN] using number

theorem xor_two_pow {n k : Nat} (h : n < 2 ^ k) : n ^^^ 2 ^ k = 2 ^ k + n := by
  refine Nat.eq_of_testBit_eq fun i => ?_
  rw [Nat.testBit_xor, Nat.testBit_two_pow]
  obtain hi | rfl | hi := Nat.lt_trichotomy i k
  · rw [Nat.testBit_two_pow_add_gt hi, decide_eq_false (Nat.ne_of_gt hi), Bool.xor_false]
  · rw [Nat.testBit_two_pow_add_eq, decide_eq_true rfl, Bool.xor_true]
  · have below : 2 ^ k + n < 2 ^ i :=
      calc 2 ^ k + n < 2 ^ (k + 1) := by rw [Nat.pow_succ]; omega
        _ ≤ 2 ^ i := Nat.pow_le_pow_right (by decide) hi
    rw [Nat.testBit_lt_two_pow below,
      Nat.testBit_lt_two_pow (Nat.lt_of_le_of_lt (Nat.le_add_left n _) below),
      decide_eq_false (Nat.ne_of_lt hi)]
    rfl

/-- The other sign changes one bit only. -/
theorem neg_ofBits {n : Nat} (h : n ≤ 0x7FF * unit) : (ofBits n).neg = ofBits (signWeight + n) := by
  have small : n < 2 ^ 63 := by
    unfold unit at h
    omega
  refine congrArg Binary64.mk (UInt64.toNat_inj.1 ?_)
  rw [ofBits, UInt64.toNat_xor, UInt64.toNat_ofNat', UInt64.toNat_ofNat', Nat.mod_eq_of_lt (by omega),
    Nat.mod_eq_of_lt (by unfold signWeight; omega)]
  exact xor_two_pow small

/-- A rounded mantissa has the same bits for both signs, but for the bit of the sign. -/
theorem exists_ofMantissa {m : Nat} (hm : m ≤ 2 * unit) (e : Int) :
    ∃ n ≤ 0x7FF * unit, ∀ negative, ofMantissa negative m e = ofBits (signBit negative + n) := by
  have main (m : Nat) (e : Int) (hm : m < 2 * unit) : ∃ n ≤ 0x7FF * unit, ∀ negative,
      (if e > 971 then infinity negative
      else if m < unit then ofBits (signBit negative + m)
      else ofBits (signBit negative + (e + 1075).toNat * unit + (m - unit))) =
        ofBits (signBit negative + n) := by
    split
    · exact ⟨_, Nat.le_refl _, fun _ => rfl⟩
    split
    · exact ⟨m, by unfold unit at *; omega, fun _ => rfl⟩
    · refine ⟨(e + 1075).toNat * unit + (m - unit), ?_, fun _ => by rw [Nat.add_assoc]⟩
      have exponent : (e + 1075).toNat ≤ 0x7FE := by omega
      unfold unit at *
      omega
  by_cases h : m = 2 * unit
  · simpa only [ofMantissa, if_pos h] using main unit (e + 1) (by decide)
  · simpa only [ofMantissa, if_neg h] using main m e (by omega)

theorem exists_ofRatio (num : Nat) (hd : den ≠ 0) :
    ∃ n ≤ 0x7FF * unit, ∀ negative, ofRatio negative num den = ofBits (signBit negative + n) := by
  by_cases h : num = 0
  · exact ⟨0, Nat.zero_le _, fun negative => by rw [ofRatio, if_pos h]; rfl⟩
  · have mantissa : roundQuotient (scaled num den (lastBit num den)).1
        (scaled num den (lastBit num den)).2 ≤ 2 * unit :=
      Nat.le_trans (roundQuotient_le _ _) (wholePart_lastBit_lt hd)
    obtain ⟨n, hn, he⟩ := exists_ofMantissa mantissa (lastBit num den)
    exact ⟨n, hn, fun negative => by rw [ofRatio, if_neg h]; exact he negative⟩

theorem exists_ofDecimal (digits : Nat) (exponent : Int) : ∃ n ≤ 0x7FF * unit,
    ∀ negative, ofDecimal negative digits exponent = ofBits (signBit negative + n) := by
  unfold ofDecimal
  split
  · exact ⟨0, Nat.zero_le _, fun _ => rfl⟩
  simp only
  split
  · exact ⟨_, Nat.le_refl _, fun _ => rfl⟩
  split
  · exact ⟨0, Nat.zero_le _, fun _ => rfl⟩
  split
  · exact exists_ofRatio _ (by decide)
  · exact exists_ofRatio _ (Nat.pos_iff_ne_zero.1 (Nat.pow_pos (by decide)))

/-- A decimal is a number. -/
theorem isNaN_ofDecimal (digits : Nat) (exponent : Int) :
    (ofDecimal false digits exponent).isNaN = false := by
  obtain ⟨n, hn, he⟩ := exists_ofDecimal digits exponent
  rw [he, signBit, if_neg (by decide), Nat.zero_add]
  exact isNaN_ofBits hn

theorem neg_ofDecimal (digits : Nat) (exponent : Int) :
    (ofDecimal false digits exponent).neg = ofDecimal true digits exponent := by
  obtain ⟨n, hn, he⟩ := exists_ofDecimal digits exponent
  rw [he, he, signBit, if_neg (by decide), Nat.zero_add]
  exact neg_ofBits hn

end ShellCompletion.Binary64
