import ShellCompletion.Log.Message
import ShellCompletion.Proofs.Text.Numeral

/-! Templates that are filled without an error: texts without a per cent sign, and between
them places that ask for a text or a whole number and for nothing else. The main statement
says what such a template becomes when it has as many arguments as places. -/
namespace ShellCompletion.Log

open Document

/-- A part of a message: a text of the template, or what an argument is written as. -/
inductive Part where
  | plain (t : String)
  | text (t : String)
  | number (n : Int)

namespace Part

/-- The part in the template. -/
def template : Part → List Char
  | plain t => t.toList
  | text _ => ['%', 's']
  | number _ => ['%', 'd']

def argument? : Part → Option Value
  | plain _ => none
  | text t => some (.str t)
  | number n => some (.int n)

/-- The part in the message. -/
def message : Part → List Char
  | plain t | text t => t.toList
  | number n => (toString n).toList

/-- A text of the template has no place in it. -/
def IsWritten : Part → Prop
  | plain t => '%' ∉ t.toList
  | _ => True

end Part

/-! ### Reading the template -/

/-- A place that says nothing but its letter. -/
def barePlace (letter : Char) : Place := ⟨.unsaid, {}, .unsaid, .unsaid, some letter⟩

theorem piecesFrom_append {s : List Char} (h : '%' ∉ s) (index : Nat) (r : List Char) :
    piecesFrom index (s ++ r) = s.map .char ++ piecesFrom (index + s.length) r := by
  induction s generalizing index with
  | nil => rfl
  | cons c s ih =>
    simp only [List.mem_cons, not_or] at h
    have hc : c ≠ '%' := fun e => h.1 e.symm
    rw [List.cons_append, piecesFrom.eq_4 _ _ _ (fun _ e _ => hc e) hc, ih h.2,
      List.length_cons, Nat.add_assoc, Nat.add_comm 1]
    rfl

theorem piecesFrom_text (index : Nat) (r : List Char) :
    piecesFrom index ('%' :: 's' :: r) =
      .place (barePlace 's') (index + 1) :: piecesFrom (index + 2) r := by
  rw [piecesFrom.eq_3 _ _ (by simp)]
  rfl

theorem piecesFrom_number (index : Nat) (r : List Char) :
    piecesFrom index ('%' :: 'd' :: r) =
      .place (barePlace 'd') (index + 1) :: piecesFrom (index + 2) r := by
  rw [piecesFrom.eq_3 _ _ (by simp)]
  rfl

/-! ### Filling the places -/

/-- The layout of a place that says nothing. -/
def bareLayout : Layout := ⟨{}, 0, none⟩

theorem write_text (t : String) (index : Nat) :
    bareLayout.write 's' index (.str t) = .ok t.toList := by
  simp [bareLayout, Layout.write, Layout.fillText, Layout.fill, Value.plainText]
  rfl

theorem write_number (n : Int) (index : Nat) :
    bareLayout.write 'd' index (.int n) = .ok (toString n).toList := by
  have hi : bareLayout.fillInt 10 [] n = .ok (toString n).toList := by
    rw [Text.toList_toString_int]
    simp [bareLayout, Layout.fillInt, Layout.fillNumber, Layout.fill]
  simp only [Layout.write, Layout.decimal, integerOf?, hi]
  rfl

theorem place_run {letter : Char} {index : Nat} {v : Value} {s : List Char}
    (h : bareLayout.write letter index v = .ok s) (args : List Value) :
    (Filling.place (barePlace letter) index).run (.sequence (v :: args)) =
      .ok (s, .sequence args) := by
  have hm : (Filling.place (barePlace letter) index).run (.sequence (v :: args)) =
      (fun t => (t, .sequence args)) <$> bareLayout.write letter index v := by
    simp [Filling.place, barePlace, bareLayout, Filling.select, Filling.number, Filling.take]
  rw [hm, h]
  rfl

/-- The pieces, put to arguments in turn, make a text and use the arguments up. -/
def Fills (ps : List Piece) (args : List Value) (s : List Char) : Prop :=
  ∃ a, (Filling.pieces ps).run (.sequence args) = .ok (s, a)

theorem fills_chars {ps : List Piece} {args : List Value} {s : List Char} (t : List Char)
    (h : Fills ps args s) : Fills (t.map .char ++ ps) args (t ++ s) := by
  induction t with
  | nil => exact h
  | cons c t ih =>
    obtain ⟨a, ha⟩ := ih
    refine ⟨a, ?_⟩
    change (fun r => (c :: r.1, r.2)) <$> (Filling.pieces (t.map .char ++ ps)).run (.sequence args) = _
    rw [ha]
    rfl

theorem fills_place {ps : List Piece} {args : List Value} {s t : List Char} {letter : Char}
    {index : Nat} {v : Value} (hw : bareLayout.write letter index v = .ok t)
    (h : Fills ps args s) :
    Fills (.place (barePlace letter) index :: ps) (v :: args) (t ++ s) := by
  obtain ⟨a, ha⟩ := h
  refine ⟨a, ?_⟩
  simp only [Filling.pieces, StateT.run_bind, place_run hw]
  change (fun r => (t ++ r.1, r.2)) <$> (Filling.pieces ps).run (.sequence args) = _
  rw [ha]
  rfl

theorem fills_parts {parts : List Part} (h : ∀ p ∈ parts, p.IsWritten) (index : Nat) :
    Fills (piecesFrom index (parts.flatMap Part.template)) (parts.filterMap Part.argument?)
      (parts.flatMap Part.message) := by
  induction parts generalizing index with
  | nil => exact ⟨_, by simp [piecesFrom, Filling.pieces]; rfl⟩
  | cons p parts ih =>
    have ih (index : Nat) := ih (fun q hq => h q (by simp [hq])) index
    rw [List.flatMap_cons, List.flatMap_cons]
    cases p with
    | plain t =>
      rw [Part.template, piecesFrom_append (h (.plain t) (by simp))]
      exact fills_chars _ (ih _)
    | text t => exact piecesFrom_text index _ ▸ fills_place (write_text t _) (ih _)
    | number n => exact piecesFrom_number index _ ▸ fills_place (write_number n _) (ih _)

theorem ofList_arguments (parts : List Part) :
    Arguments.ofList (parts.filterMap Part.argument?) =
      .sequence (parts.filterMap Part.argument?) := by
  unfold Arguments.ofList
  split
  · rename_i e es hm
    obtain ⟨p, _, hp⟩ := List.mem_filterMap.1 (hm ▸ List.mem_singleton_self (Value.map (e :: es)))
    cases p <;> simp [Part.argument?] at hp
  · rfl

/-- A template with an argument for each of its places becomes the message of its parts. -/
theorem fillTemplate_parts (parts : List Part) (template : String)
    (h : ∀ p ∈ parts, p.IsWritten) (ht : template.toList = parts.flatMap Part.template)
    (ha : parts.filterMap Part.argument? ≠ []) :
    fillTemplate template (parts.filterMap Part.argument?) =
      .ok (String.ofList (parts.flatMap Part.message)) := by
  obtain ⟨a, hf⟩ := fills_parts h 0
  rw [fillTemplate, if_neg (by simpa using ha), ofList_arguments, pieces, ht]
  change ((·.1) <$> (Filling.pieces _).run (.sequence _)).map String.ofList = _
  rw [hf]
  rfl

end ShellCompletion.Log
