import LispShell.Text.Lines
import LispShell.World.Path
import Mathlib.Data.List.Basic

/-! # Pieces between separators
Outputs are split at their line feeds and path texts at a separator of their own. Both are the parts
of a list at an element, which the library puts together again; that element is in none of them. -/

namespace LispShell

/-- What is in the parts of a list at an element are the other elements of the list. -/
theorem exists_mem_splitOn_iff {α : Type} [BEq α] [LawfulBEq α] {separator item : α}
    {items : List α} :
    (∃ part ∈ items.splitOn separator, item ∈ part) ↔ item ∈ items ∧ item ≠ separator := by
  induction items with
  | nil => simp
  | cons first rest inductionHypothesis =>
    rw [List.splitOn_cons_eq_if_modifyHead]
    split
    · next isSeparator =>
      obtain rfl := eq_of_beq isSeparator
      rw [List.exists_mem_cons_iff, inductionHypothesis]
      grind
    · next notSeparator =>
      have differs : first ≠ separator := fun isSeparator => notSeparator (beq_of_eq isSeparator)
      obtain ⟨part, others, isSplit⟩ :=
        List.exists_cons_of_ne_nil (List.splitOn_ne_nil separator rest)
      rw [isSplit, List.exists_mem_cons_iff] at inductionHypothesis
      rw [isSplit, List.modifyHead_cons, List.exists_mem_cons_iff, List.mem_cons, List.mem_cons,
        or_assoc, inductionHypothesis]
      grind

/-- The element at which a list is split is in none of the parts. -/
theorem notMem_of_mem_splitOn {α : Type} [BEq α] [LawfulBEq α] {separator : α}
    {items part : List α} (isPart : part ∈ items.splitOn separator) : separator ∉ part :=
  fun isIn => (exists_mem_splitOn_iff.mp ⟨part, isPart, isIn⟩).2 rfl

/-- To split a list character by character is to take its parts at the separator. -/
theorem eq_splitOn_of_cons {separator : Char} {split : List Char → List (List Char)}
    (ofNil : split [] = [[]])
    (ofCons : ∀ c rest, split (c :: rest) =
      if c = separator then [] :: split rest
      else
        match split rest with
        | [] => [[c]]
        | first :: others => (c :: first) :: others)
    (cs : List Char) : split cs = cs.splitOn separator := by
  induction cs with
  | nil => rw [ofNil, List.splitOn_nil]
  | cons c rest inductionHypothesis =>
    rw [ofCons, inductionHypothesis, List.splitOn_cons_eq_if_modifyHead]
    simp only [beq_iff_eq]
    split
    · rfl
    · cases isSplit : rest.splitOn separator with
      | nil => exact absurd isSplit (List.splitOn_ne_nil separator rest)
      | cons first others => rfl

/-- The pieces between line feeds are the parts at line feeds. -/
theorem Text.splitAtNewlines_eq_splitOn (cs : List Char) :
    splitAtNewlines cs = cs.splitOn '\n' :=
  eq_splitOn_of_cons rfl (fun _ _ => rfl) cs

/-- The pieces between the separators are the parts at the separator. -/
theorem Path.splitOn_eq_splitOn (separator : Char) (cs : List Char) :
    splitOn separator cs = cs.splitOn separator :=
  eq_splitOn_of_cons rfl (fun _ _ => rfl) cs

end LispShell
