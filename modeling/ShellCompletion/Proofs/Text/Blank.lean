import Mathlib.Data.List.DropRight
import ShellCompletion.Text.Blank
import ShellCompletion.Text.LowerCase

/-! Blanks under trimming and in lower case. A text that is all blank, and no other, is
trimmed to nothing; it is its own lower-case form. -/
namespace ShellCompletion.Text

theorem trimBy_eq_nil_iff (kind : Char → Bool) (s : List Char) :
    trimBy kind s = [] ↔ ∀ c ∈ s, kind c = true := by
  rw [show trimBy kind s = (s.dropWhile kind).rdropWhile kind from rfl, List.rdropWhile_eq_nil_iff]
  constructor
  · intro h c hc
    have hd : s.dropWhile kind = [] := by
      by_contra hne
      have := List.head_dropWhile_not kind hne
      simp [h _ (List.head_mem hne)] at this
    exact List.dropWhile_eq_nil_iff.1 hd c hc
  · intro h c hc
    exact h c ((List.dropWhile_sublist kind).mem hc)

theorem lowerChar_of_isBlank {c : Char} (h : isBlank c = true) : lowerChar c = [c] := by
  have hn : c.toNat ∈ [0x20, 0x09, 0x0A, 0x0B, 0x0C, 0x0D, 0x1C, 0x1D, 0x1E, 0x1F, 0x85, 0xA0,
      0x1680, 0x2000, 0x2001, 0x2002, 0x2003, 0x2004, 0x2005, 0x2006, 0x2007, 0x2008, 0x2009,
      0x200A, 0x2028, 0x2029, 0x202F, 0x205F, 0x3000] := by
    simp [isBlank] at h ⊢
    omega
  have hf : ∀ n ∈ [0x20, 0x09, 0x0A, 0x0B, 0x0C, 0x0D, 0x1C, 0x1D, 0x1E, 0x1F, 0x85, 0xA0,
      0x1680, 0x2000, 0x2001, 0x2002, 0x2003, 0x2004, 0x2005, 0x2006, 0x2007, 0x2008, 0x2009,
      0x200A, 0x2028, 0x2029, 0x202F, 0x205F, 0x3000], lowerChar (Char.ofNat n) = [Char.ofNat n] := by
    decide +kernel
  simpa using hf _ hn

theorem isBlank_sigma : isBlank 'Σ' = false := by decide

theorem lower_of_isBlank {s : List Char} (h : ∀ c ∈ s, isBlank c = true) : lower s = s := by
  have hs : 'Σ' ∉ s := fun hm => by simpa [isBlank_sigma] using h _ hm
  rw [lower_of_not_mem hs]
  induction s with
  | nil => rfl
  | cons c s ih =>
    simp only [List.mem_cons, forall_eq_or_imp, not_or] at h hs
    rw [List.flatMap_cons, lowerChar_of_isBlank h.1, ih h.2 hs.2, List.singleton_append]

end ShellCompletion.Text
