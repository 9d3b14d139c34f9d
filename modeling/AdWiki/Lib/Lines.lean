import Mathlib

/-!
# The lines of a text

A line ends with a newline or with the text. A newline at the end of the text begins no further line.
-/

namespace AdWiki

variable {α : Type*} [BEq α] [LawfulBEq α] {newline : α} {value left right : List α} {values : List (List α)}

def linesOf (newline : α) (text : List α) : List (List α) :=
  if (text.splitOn newline).getLast? == some [] then (text.splitOn newline).dropLast else text.splitOn newline

/-- Nothing, or lines that all have their newline. -/
def EndsLine (newline : α) (value : List α) : Prop := value = [] ∨ value.getLast? = some newline

@[simp] theorem linesOf_nil : linesOf newline ([] : List α) = [] := by
  simp [linesOf, List.splitOn_nil]

theorem linesOf_append_newline : linesOf newline (left ++ [newline]) = left.splitOn newline := by
  have hsplit : (left ++ [newline]).splitOn newline = left.splitOn newline ++ [[]] := by
    rw [List.splitOn_append_cons_self, List.splitOn_nil]
  simp [linesOf, hsplit]

/-- The last segment is what follows the last newline. -/
theorem splitOn_getLast?_eq_nil (h : (value.splitOn newline).getLast? = some []) : EndsLine newline value := by
  induction value using List.reverseRecOn with
  | nil => exact Or.inl rfl
  | append_singleton front c ih =>
    by_cases hc : c = newline
    · exact Or.inr (by rw [hc, List.getLast?_concat])
    · exfalso
      have hparts : ∀ front : List α, ∃ parts last, (front ++ [c]).splitOn newline = parts ++ [last ++ [c]] := by
        intro front
        induction front with
        | nil =>
          refine ⟨[], [], ?_⟩
          rw [List.nil_append, List.splitOn_eq_singleton (by simpa using Ne.symm hc)]
          rfl
        | cons d front ih =>
          obtain ⟨parts, last, hsplit⟩ := ih
          rw [List.cons_append, List.splitOn_cons_eq_if_modifyHead, hsplit]
          by_cases hd : d = newline
          · exact ⟨[] :: parts, last, by simp [hd]⟩
          · cases parts with
            | nil => exact ⟨[], d :: last, by simp [hd]⟩
            | cons part parts => exact ⟨(d :: part) :: parts, last, by simp [hd]⟩
      obtain ⟨parts, last, hsplit⟩ := hparts front
      rw [hsplit, List.getLast?_concat] at h
      simp at h

theorem linesOf_of_not_endsLine (h : ¬EndsLine newline value) : linesOf newline value = value.splitOn newline := by
  have hlast : (value.splitOn newline).getLast? ≠ some [] := fun hnil => h (splitOn_getLast?_eq_nil hnil)
  simp [linesOf, hlast]

theorem linesOf_append (h : EndsLine newline left) :
    linesOf newline (left ++ right) = linesOf newline left ++ linesOf newline right := by
  rcases h with rfl | hend
  · simp
  · obtain ⟨front, rfl⟩ := List.getLast?_eq_some_iff.mp hend
    have hsplit : (front ++ [newline] ++ right).splitOn newline = front.splitOn newline ++ right.splitOn newline := by
      rw [List.append_assoc, List.singleton_append, List.splitOn_append_cons_self]
    have hne := List.splitOn_ne_nil newline right
    have hlast : (front.splitOn newline ++ right.splitOn newline).getLast? = (right.splitOn newline).getLast? := by
      rw [List.getLast?_append, List.getLast?_eq_some_getLast hne, Option.some_or]
    rw [linesOf_append_newline]
    unfold linesOf
    rw [hsplit, hlast, List.dropLast_append_of_ne_nil hne]
    split <;> rfl

/-- Where a text is cut at ends of lines, its lines are those of the parts. -/
theorem linesOf_flatten (h : values.Pairwise fun value later => later ≠ [] → EndsLine newline value) :
    linesOf newline values.flatten = values.flatMap (linesOf newline) := by
  induction values with
  | nil => simp
  | cons value values ih =>
    obtain ⟨hvalue, hrest⟩ := List.pairwise_cons.mp h
    rw [List.flatten_cons, List.flatMap_cons, ← ih hrest]
    by_cases hnil : values.flatten = []
    · simp [hnil]
    · obtain ⟨later, hlater, hne⟩ : ∃ later ∈ values, later ≠ [] := by
        by_contra hnone
        refine hnil (List.flatten_eq_nil_iff.mpr fun later hlater => ?_)
        by_contra hne
        exact hnone ⟨later, hlater, hne⟩
      exact linesOf_append (hvalue later hlater hne)

end AdWiki
