import ShellCompletion.Document.Mapping

/-! Looking up a text key in the entries of a mapping. The first entry of the key counts, so
the answer does not depend on entries of other keys, and if no key comes twice it does not
depend on the order of the entries. -/
namespace ShellCompletion.Document

theorem Value.isKey_iff {k : Value} {name : String} : k.isKey name = true ↔ k = .str name := by
  cases k <;> simp [isKey]

theorem Value.isNull_iff {v : Value} : v.isNull = true ↔ v = .null := by cases v <;> simp [isNull]

/-- A list is short if a relation holds between any two of its elements and between none. -/
theorem length_le_one_of_pairwise {α : Type} {R : α → α → Prop} {xs : List α} (h : xs.Pairwise R)
    (hn : ∀ x ∈ xs, ∀ y ∈ xs, ¬R x y) : xs.length ≤ 1 := by
  match xs, h with
  | [], _ | [_], _ => simp
  | x :: y :: _, h =>
    exact absurd ((List.pairwise_cons.1 h).1 y (by simp)) (hn x (by simp) y (by simp))

theorem head?_eq_of_perm {α : Type} {xs ys : List α} (h : xs.Perm ys) (hl : xs.length ≤ 1) :
    xs.head? = ys.head? := by
  match xs, hl with
  | [], _ => rw [List.nil_perm.1 h]
  | [x], _ => rw [List.singleton_perm.1 h]

namespace Entries

/-- No two keys of the mapping are one key. -/
def Distinct (es : Entries) : Prop := es.Pairwise fun d e => d.1.same e.1 = false

theorem find?_eq_some_of_get {es : Entries} {name : String} {v : Value} (h : es.get name = v)
    (hv : v ≠ .null) : es.find? name = some v := by
  unfold get at h
  cases hf : es.find? name <;> simp_all

theorem get_eq_of_find?_eq {es fs : Entries} {name : String} (h : es.find? name = fs.find? name) :
    es.get name = fs.get name := by
  rw [get, get, h]

theorem find?_append (front back : Entries) (name : String) :
    Entries.find? (front ++ back) name = (front.find? name).or (back.find? name) := by
  simp only [find?, List.find?_append]
  cases List.find? _ front <;> rfl

theorem find?_cons_of_ne {k : Value} {name : String} (h : k.isKey name = false) (v : Value)
    (es : Entries) : Entries.find? ((k, v) :: es) name = es.find? name := by
  simp [find?, h]

/-- An entry of another key does not count. -/
theorem find?_append_cons_of_ne {k : Value} {name : String} (h : k.isKey name = false) (v : Value)
    (front back : Entries) :
    Entries.find? (front ++ (k, v) :: back) name = Entries.find? (front ++ back) name := by
  rw [find?_append, find?_append, find?_cons_of_ne h]

/-- An entry of the key counts just when none comes before it. -/
theorem find?_append_cons_self (front back : Entries) (name : String) (v : Value) :
    Entries.find? (front ++ (.str name, v) :: back) name = (front.find? name).or (some v) := by
  rw [find?_append, find?_cons_self]

theorem find?_eq_none_of_append {front back : Entries} {name : String}
    (h : Entries.find? (front ++ back) name = none) : front.find? name = none := by
  rw [find?_append, Option.or_eq_none_iff] at h
  exact h.1

/-- An entry of null under an absent key is as good as no entry. -/
theorem get_append_null {front back : Entries} {name : String}
    (h : Entries.find? (front ++ back) name = none) (other : String) :
    Entries.get (front ++ (.str name, .null) :: back) other =
      Entries.get (front ++ back) other := by
  by_cases hn : other = name
  · subst hn
    rw [get, get, find?_append_cons_self, find?_eq_none_of_append h, h]
    rfl
  · have hk : (Value.str name).isKey other = false := by simpa [Value.isKey] using Ne.symm hn
    exact get_eq_of_find?_eq (find?_append_cons_of_ne hk ..)

theorem find?_eq_head? (es : Entries) (name : String) :
    es.find? name = ((es.filter fun e => e.1.isKey name).head?).map (·.2) := by
  rw [List.head?_filter, find?]

/-- Of distinct keys at most one is the text. -/
theorem Distinct.length_filter_le {es : Entries} (h : es.Distinct) (name : String) :
    (es.filter fun e => e.1.isKey name).length ≤ 1 := by
  have hp := List.Pairwise.filter (fun e => e.1.isKey name) h
  refine length_le_one_of_pairwise hp fun d hd e he => ?_
  have hd : d.1.isKey name = true := (List.mem_filter.1 hd).2
  have he : e.1 = .str name := Value.isKey_iff.1 (List.mem_filter.1 he).2
  simp [he, Value.same_str, hd]

/-- The order of the entries does not count when no key comes twice. -/
theorem find?_eq_of_perm {es fs : Entries} (hd : es.Distinct) (hp : es.Perm fs) (name : String) :
    es.find? name = fs.find? name := by
  rw [find?_eq_head?, find?_eq_head?,
    head?_eq_of_perm (hp.filter fun e => e.1.isKey name) (hd.length_filter_le name)]

end Entries

end ShellCompletion.Document
