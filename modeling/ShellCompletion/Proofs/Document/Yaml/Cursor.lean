import ShellCompletion.Document.Yaml.Mark
import ShellCompletion.Proofs.Text.Spans

/-! Cursors that go forward. Going forward takes characters off the rest of the text and counts
them, and it stays on the line as long as no line ends. -/
namespace ShellCompletion.Document.Yaml.Cursor

open Text

variable {c : Cursor} {s t : List Char}

theorem forward_succ (n : Nat) (c : Cursor) : forward (n + 1) c = forward n c.next := rfl

theorem forward_one (c : Cursor) : forward 1 c = c.next := rfl

theorem forward_add (m n : Nat) (c : Cursor) : forward (m + n) c = forward n (forward m c) := by
  induction m generalizing c with
  | zero => rw [Nat.zero_add, forward_zero]
  | succ m ih => rw [Nat.succ_add, forward_succ, ih, forward_succ]

theorem rest_forward (h : c.rest = s ++ t) : (forward s.length c).rest = t := by
  rw [forward_rest, h, List.drop_left]

theorem rest_next {x : Char} (h : c.rest = x :: t) : c.next.rest = t := by rw [next_rest, h]; rfl

theorem peek_of_rest {x : Char} (h : c.rest = x :: t) : c.peek = x := by rw [peek, h]; rfl

theorem peek_of_nil (h : c.rest = []) : c.peek = endChar := by rw [peek, h]; rfl

theorem peek_of_stops {p : Char → Bool} (h : Stops p c.rest) (hend : p endChar = false) :
    p c.peek = false := by
  cases hr : c.rest with
  | nil => rwa [peek_of_nil hr]
  | cons x r =>
    rw [peek_of_rest hr]
    rw [hr] at h
    exact stops_cons.1 h

theorem index_forward (h : c.rest = s ++ t) :
    (forward s.length c).mark.index = c.mark.index + s.length := by
  induction s generalizing c with
  | nil => rfl
  | cons x s ih =>
    have hnext : c.next.mark.index = c.mark.index + 1 := by
      simp only [next, h, List.cons_append, after]
      split <;> rfl
    rw [List.length_cons, forward_succ, ih (rest_next h), hnext, Nat.add_assoc, Nat.add_comm 1]

theorem line_forward (h : c.rest = s ++ t) (hs : ∀ x ∈ s, isBreak x = false) :
    (forward s.length c).mark.line = c.mark.line := by
  induction s generalizing c with
  | nil => rfl
  | cons x s ih =>
    simp only [List.mem_cons, forall_eq_or_imp] at hs
    have hnext : c.next.mark.line = c.mark.line := by
      have hx := hs.1
      simp only [isBreak, Bool.or_eq_false_iff] at hx
      simp [next, h, after, hx]
    rw [List.length_cons, forward_succ, ih (rest_next h) hs.2, hnext]

theorem span_run {p : Char → Bool} (h : c.rest = s ++ t) (hs : ∀ x ∈ s, p x = true) (ht : Stops p t) :
    c.span p = (s, forward s.length c) := by
  rw [span, h, takeWhile_run hs ht]

theorem skip_run {p : Char → Bool} (h : c.rest = s ++ t) (hs : ∀ x ∈ s, p x = true) (ht : Stops p t) :
    c.skip p = forward s.length c := by
  rw [skip, span_run h hs ht]

end ShellCompletion.Document.Yaml.Cursor
