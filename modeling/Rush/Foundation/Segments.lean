import Mathlib.Data.List.Infix
import Mathlib.Tactic.Common

/-!
# Words behind separators

A sequence of words is written with a separator before each word.  If no word
contains the separator, the beginnings of the text that end at a separator are
the beginnings of the sequence.
-/

namespace Rush
namespace Foundation

variable {α : Type*}

/-- The words, each of them behind the separator. -/
def render (sep : α) (words : List (List α)) : List α :=
  words.flatMap fun word => sep :: word

@[simp] theorem render_nil (sep : α) : render sep [] = [] := rfl

@[simp] theorem render_cons (sep : α) (word : List α) (words : List (List α)) :
    render sep (word :: words) = sep :: word ++ render sep words := rfl

/-- Joining the words puts the separators between them. -/
theorem cons_intercalate (sep : α) {words : List (List α)} (h : words ≠ []) :
    sep :: List.intercalate [sep] words = render sep words := by
  induction words with
  | nil => contradiction
  | cons word words ih =>
      cases words with
      | nil => simp [List.intercalate]
      | cons next words =>
          rw [render_cons, ← ih (by simp)]
          simp [List.intercalate, List.intersperse]

/-- The text of a sequence is empty, or it begins with the separator. -/
theorem render_cases (sep : α) (words : List (List α)) :
    render sep words = [] ∨ ∃ rest, render sep words = sep :: rest := by
  cases words with
  | nil => exact Or.inl rfl
  | cons word words => exact Or.inr ⟨word ++ render sep words, rfl⟩

/-- The words of a split text do not contain the separator. -/
theorem not_mem_of_mem_splitOn [BEq α] [LawfulBEq α] {sep : α} {text : List α} :
    ∀ word ∈ text.splitOn sep, sep ∉ word := by
  induction text with
  | nil => simp [List.splitOn_nil]
  | cons c text ih =>
      rw [List.splitOn_cons_eq_if_modifyHead]
      split
      case isTrue => simpa using ih
      case isFalse hne =>
        have hc : sep ≠ c := fun heq => hne (by simp [heq])
        cases hsplit : text.splitOn sep with
        | nil => simp
        | cons first others =>
            rw [hsplit] at ih
            simpa [List.modifyHead, hc] using ih

/-- Two words before separators: the texts begin alike only if the words are
equal. -/
theorem word_prefix_iff {sep : α} {p q x y : List α} (hp : sep ∉ p)
    (hq : sep ∉ q) (hy : y = [] ∨ ∃ rest, y = sep :: rest) :
    p ++ sep :: x <+: q ++ y ↔ p = q ∧ sep :: x <+: y := by
  induction p generalizing q with
  | nil =>
      cases q with
      | nil => simp
      | cons c q =>
          have hne : sep ≠ c := fun heq => hq (by simp [heq])
          simp [List.cons_prefix_cons, hne]
  | cons c p ih =>
      have hne : c ≠ sep := fun heq => hp (by simp [heq])
      have hp' : sep ∉ p := fun hmem => hp (List.mem_cons_of_mem c hmem)
      cases q with
      | nil =>
          rcases hy with rfl | ⟨rest, rfl⟩
          · simp
          · simp [List.cons_prefix_cons, hne]
      | cons d q =>
          have hq' : sep ∉ q := fun hmem => hq (List.mem_cons_of_mem d hmem)
          rw [List.cons_append, List.cons_append, List.cons_prefix_cons, ih hp' hq',
            List.cons.injEq, and_assoc]

/-- **Text prefixes are sequence prefixes.**  A text followed by a separator
begins another text if and only if its words are a proper beginning of the
others. -/
theorem render_prefix_iff {sep : α} {ps qs : List (List α)}
    (hps : ∀ p ∈ ps, sep ∉ p) (hqs : ∀ q ∈ qs, sep ∉ q) :
    render sep ps ++ [sep] <+: render sep qs ↔ ps <+: qs ∧ ps ≠ qs := by
  induction ps generalizing qs with
  | nil =>
      cases qs with
      | nil => simp
      | cons q qs => simp [List.cons_prefix_cons]
  | cons p ps ih =>
      cases qs with
      | nil => simp
      | cons q qs =>
          obtain ⟨hp, hps⟩ := List.forall_mem_cons.mp hps
          obtain ⟨hq, hqs⟩ := List.forall_mem_cons.mp hqs
          obtain ⟨x, hx⟩ : ∃ x, render sep ps ++ [sep] = sep :: x := by
            rcases render_cases sep ps with hnil | ⟨rest, hrest⟩
            · exact ⟨[], by simp [hnil]⟩
            · exact ⟨rest ++ [sep], by simp [hrest]⟩
          have hwords := word_prefix_iff (x := x) hp hq (render_cases sep qs)
          rw [← hx, ih hps hqs] at hwords
          simp only [render_cons, List.cons_append, List.append_assoc,
            List.cons_prefix_cons, true_and, hwords, ne_eq, List.cons.injEq]
          tauto

end Foundation
end Rush
