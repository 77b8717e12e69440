import LispShell.Proofs.Run.Discipline

/-! # Fresh names
A fresh name ends in its number, so two fresh names with different numbers are spelled differently,
whatever the names they are made from. -/

namespace LispShell.Session

/-- Fresh names that are spelled alike have the same number. -/
theorem eq_of_freshName_eq {name other : String} {number otherNumber : Nat}
    (same : freshName name number = freshName other otherNumber) : number = otherNumber := by
  -- read from the end, the digits of the number are what stands between the last two marks
  have digits (name : String) (number : Nat) :
      (freshName name number).toList.reverse.tail.takeWhile (· != '#') =
        (Nat.toDigits 10 number).reverse := by
    have noMark : ∀ c ∈ (Nat.toDigits 10 number).reverse, (c != '#') = true := by
      intro c isIn
      have isDigit := Nat.isDigit_of_mem_toDigits (by decide) (by decide) (List.mem_reverse.mp isIn)
      rw [bne_iff_ne]
      rintro rfl
      exact absurd isDigit (by decide)
    have backwards : (freshName name number).toList.reverse.tail =
        (Nat.toDigits 10 number).reverse ++ '#' :: (name.toList.reverse ++ ['#']) := by
      simp [freshName]
    rw [backwards, List.takeWhile_append_of_pos noMark]
    simp
  have sameDigits := digits name number
  rw [same, digits, List.reverse_inj] at sameDigits
  rw [← Nat.ofDigitChars_ten_toDigits (n := number), ← sameDigits, Nat.ofDigitChars_ten_toDigits]

/-- A row of fresh names has the numbers from the given one on, one for each parameter. -/
theorem exists_of_mem_freshNamesFrom {number : Nat} {params : List String} {name : String}
    (isIn : name ∈ freshNamesFrom number params) :
    ∃ param later, number ≤ later ∧ later < number + params.length ∧
      name = freshName param later := by
  induction params generalizing number with
  | nil => cases isIn
  | cons param rest inductionHypothesis =>
    rw [List.length_cons]
    rcases List.mem_cons.mp isIn with rfl | isLater
    · exact ⟨param, number, Nat.le_refl _, by omega, rfl⟩
    · obtain ⟨param, later, isAfter, isBelow, rfl⟩ := inductionHypothesis isLater
      exact ⟨param, later, by omega, by omega, rfl⟩

/-- There is one fresh name for each parameter. -/
@[simp] theorem length_freshNamesFrom (number : Nat) (params : List String) :
    (freshNamesFrom number params).length = params.length := by
  induction params generalizing number with
  | nil => rfl
  | cons param rest inductionHypothesis => simp [freshNamesFrom, inductionHypothesis]

/-- The fresh names of a row of parameters are all spelled differently, even where the parameters
are not. -/
theorem nodup_freshNamesFrom (number : Nat) (params : List String) :
    (freshNamesFrom number params).Nodup := by
  induction params generalizing number with
  | nil => exact List.nodup_nil
  | cons param rest inductionHypothesis =>
    refine List.nodup_cons.mpr ⟨fun isIn => ?_, inductionHypothesis (number + 1)⟩
    obtain ⟨other, later, isAfter, -, same⟩ := exists_of_mem_freshNamesFrom isIn
    have sameNumber := eq_of_freshName_eq same
    omega

end LispShell.Session
