/-! Whole numbers as texts: digits only, after a sign where there is one, and different texts for
different natural numbers. -/
namespace ShellCompletion.Text

theorem toList_toString (n : Nat) : (toString n).toList = Nat.toDigits 10 n := by simp

theorem toList_toString_int (n : Int) :
    (toString n).toList = (if n < 0 then ['-'] else []) ++ Nat.toDigits 10 n.natAbs := by
  cases n with
  | ofNat n => simp [toString, Int.repr, Nat.toList_repr]
  | negSucc n => simp [toString, Int.repr, Nat.toList_repr, Int.negSucc_lt_zero]

theorem isDigit_of_mem_toString {n : Nat} {c : Char} (h : c ∈ (toString n).toList) :
    c.isDigit = true := by
  rw [toList_toString] at h
  exact Nat.isDigit_of_mem_toDigits (by decide) (by decide) h

theorem not_mem_toString {c : Char} (hc : c.isDigit = false) (n : Nat) : c ∉ (toString n).toList := by
  intro h
  rw [isDigit_of_mem_toString h] at hc
  exact absurd hc (by decide)

theorem exists_head?_toString (n : Nat) :
    ∃ c, (toString n).toList.head? = some c ∧ c.isDigit = true := by
  cases h : (toString n).toList with
  | nil => exact absurd (by rw [← toList_toString, h]) (Nat.toDigits_ne_nil (n := n) (b := 10))
  | cons c s => exact ⟨c, rfl, isDigit_of_mem_toString (h ▸ List.mem_cons_self)⟩

/-- A text with a character that is no digit is no numeral. -/
theorem toString_ne {s : String} {c : Char} (hs : c ∈ s.toList) (hc : c.isDigit = false) (n : Nat) :
    toString n ≠ s := by
  rintro rfl
  exact not_mem_toString hc n hs

theorem toString_injective {m n : Nat} (h : toString m = toString n) : m = n := by
  have hd : Nat.toDigits 10 m = Nat.toDigits 10 n := by
    rw [← toList_toString, ← toList_toString, h]
  rw [← Nat.ofDigitChars_ten_toDigits (n := m), hd, Nat.ofDigitChars_ten_toDigits]

end ShellCompletion.Text
