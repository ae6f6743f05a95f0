import LiveTree.Text.Blank
import LiveTree.Text.Numeral
import Mathlib.Data.List.DropRight

/-!
# What numerals stand for

A numeral is an optional plus sign and at least one decimal digit, for a number that fits into 64
bits (`IsNumeral`). The reader goes from the left and stops at the first defect; it accepts the
numerals and nothing else (`readNumeral_eq_ok`), with blanks around them where the text is trimmed
first (`readNumeral_trim_eq_ok`).
-/

namespace LiveTree.Text

/-! ## Digits -/

/-- The text is a numeral for the number. -/
def IsNumeral (text : List Char) (n : Nat) : Prop :=
  n < wordLimit ∧ ∃ digits : List Char, digits ≠ [] ∧ (∀ c ∈ digits, c.isDigit = true) ∧
    (text = digits ∨ text = '+' :: digits) ∧ Nat.ofDigitChars 10 digits 0 = n

/-- More digits make no number smaller. -/
theorem le_ofDigitChars (digits : List Char) (value : Nat) :
    value ≤ Nat.ofDigitChars 10 digits value := by
  induction digits generalizing value with
  | nil => rw [Nat.ofDigitChars_nil]
  | cons c digits ih =>
      rw [Nat.ofDigitChars_cons]
      have hnext := ih (10 * value + (c.toNat - '0'.toNat))
      omega

/-- That a number is too large is seen at the first digit that makes it so, and it stays so. -/
theorem readDigits_eq_ok {value n : Nat} {text : List Char} (hvalue : value < wordLimit) :
    readDigits value text = .ok n ↔
      n < wordLimit ∧ (∀ c ∈ text, c.isDigit = true) ∧ Nat.ofDigitChars 10 text value = n := by
  induction text generalizing value with
  | nil =>
      rw [readDigits, Except.ok.injEq, Nat.ofDigitChars_nil]
      constructor
      · rintro rfl
        exact ⟨hvalue, List.forall_mem_nil _, rfl⟩
      · exact fun h => h.2.2
  | cons c rest ih =>
      rw [readDigits, Nat.ofDigitChars_cons, List.forall_mem_cons]
      rcases hc : c.isDigit with _ | _
      · simp
      · simp only [Bool.not_true, Bool.false_eq_true, if_false, true_and]
        split
        · next hover =>
          have hle := le_ofDigitChars rest (10 * value + (c.toNat - '0'.toNat))
          simp only [reduceCtorEq, false_iff]
          omega
        · next hfits => exact ih (Nat.lt_of_not_le hfits)

theorem readNumeral_eq_ok {text : List Char} {n : Nat} :
    readNumeral text = .ok n ↔ IsNumeral text n := by
  have hread : ∀ digits : List Char, readDigits 0 digits = .ok n ↔ n < wordLimit ∧
      (∀ c ∈ digits, c.isDigit = true) ∧ Nat.ofDigitChars 10 digits 0 = n :=
    fun _ => readDigits_eq_ok (by decide)
  have hsign : ∀ digits : List Char, (∀ c ∈ digits, c.isDigit = true) → '+' ∉ digits :=
    fun digits hdigits hmem => absurd (hdigits '+' hmem) (by decide)
  unfold readNumeral IsNumeral
  split
  · simp
  · -- a sign, and nothing behind it
    refine iff_of_false nofun ?_
    rintro ⟨-, digits, hne, hdigits, rfl | hsame, -⟩
    · exact hsign _ hdigits List.mem_cons_self
    · exact hne (List.cons.inj hsame).2.symm
  · next digits hne =>
    rw [hread]
    refine and_congr_right fun _ => ?_
    constructor
    · rintro ⟨hdigits, hvalue⟩
      exact ⟨digits, fun he => hne he, hdigits, .inr rfl, hvalue⟩
    · rintro ⟨digits', -, hdigits, rfl | hsame, hvalue⟩
      · exact absurd List.mem_cons_self (hsign _ hdigits)
      · obtain rfl := (List.cons.inj hsame).2
        exact ⟨hdigits, hvalue⟩
  · next hne _ hunsigned =>
    rw [hread]
    refine and_congr_right fun _ => ?_
    constructor
    · rintro ⟨hdigits, hvalue⟩
      exact ⟨text, hne, hdigits, .inl rfl, hvalue⟩
    · rintro ⟨digits, -, hdigits, rfl | hsame, hvalue⟩
      · exact ⟨hdigits, hvalue⟩
      · exact absurd hsame (hunsigned digits)

/-- The decimal digits of a number are a numeral for it. -/
theorem isNumeral_toString {n : Nat} (h : n < wordLimit) : IsNumeral (toString n).toList n := by
  have hdigits : (toString n).toList = Nat.toDigits 10 n := by simp
  rw [hdigits]
  refine ⟨h, Nat.toDigits 10 n, Nat.toDigits_ne_nil, ?_, .inl rfl, ?_⟩
  · exact fun c hc => Nat.isDigit_of_mem_toDigits (by decide) (by decide) hc
  · exact Nat.ofDigitChars_toDigits (by decide) (by decide)

/-! ## Trimming -/

/-- What is dropped at the end is known by what is left. -/
theorem rdropWhile_eq_iff {α : Type} {p : α → Bool} {text core : List α} :
    text.rdropWhile p = core ↔ ∃ tail, text = core ++ tail ∧ (∀ c ∈ tail, p c = true) ∧
      ∀ c, core.getLast? = some c → p c = false := by
  constructor
  · rintro rfl
    refine ⟨text.rtakeWhile p, List.rdropWhile_append_rtakeWhile.symm, ?_, ?_⟩
    · exact fun c hc => List.mem_rtakeWhile_imp hc
    · intro c hc
      obtain ⟨hne, rfl⟩ := List.mem_getLast?_eq_getLast hc
      exact Bool.eq_false_iff.mpr (List.rdropWhile_last_not p text hne)
  · rintro ⟨tail, rfl, htail, hcore⟩
    rw [List.rdropWhile, List.reverse_append, List.dropWhile_append_of_pos (by simpa using htail)]
    rcases List.eq_nil_or_concat core with rfl | ⟨front, last, rfl⟩
    · rfl
    · have hlast : p last = false := hcore last (by simp)
      simp [hlast]

theorem trim_eq_rdropWhile (text : List Char) :
    trim text = (text.dropWhile isBlank).rdropWhile isBlank := rfl

/-- What blanks stand around, and no blank within, is left by trimming. -/
theorem trim_append {front core back : List Char} (hfront : ∀ c ∈ front, isBlank c = true)
    (hback : ∀ c ∈ back, isBlank c = true) (hne : core ≠ [])
    (hcore : ∀ c ∈ core, isBlank c = false) : trim (front ++ core ++ back) = core := by
  have hstart : (core ++ back).dropWhile isBlank = core ++ back := by
    rcases core with _ | ⟨c, rest⟩
    · exact absurd rfl hne
    · exact List.dropWhile_cons_of_neg (by simp [hcore c List.mem_cons_self])
  rw [trim_eq_rdropWhile, List.append_assoc, List.dropWhile_append_of_pos hfront, hstart,
    rdropWhile_eq_iff]
  exact ⟨back, rfl, hback, fun c hc => hcore c (List.mem_of_getLast? hc)⟩

/-- What trimming takes away are blanks at both ends. -/
theorem exists_append_trim (text : List Char) : ∃ front back : List Char,
    text = front ++ trim text ++ back ∧ (∀ c ∈ front, isBlank c = true) ∧
      ∀ c ∈ back, isBlank c = true := by
  obtain ⟨back, hback, hblank, -⟩ := rdropWhile_eq_iff.mp (trim_eq_rdropWhile text).symm
  refine ⟨text.takeWhile isBlank, back, ?_, fun c hc => List.mem_takeWhile_imp hc, hblank⟩
  rw [List.append_assoc, ← hback, List.takeWhile_append_dropWhile]

/-- The text spells the number, and may have blanks around it. -/
def Spells (text : List Char) (n : Nat) : Prop :=
  ∃ front core back : List Char, text = front ++ core ++ back ∧
    (∀ c ∈ front, isBlank c = true) ∧ (∀ c ∈ back, isBlank c = true) ∧ IsNumeral core n

/-- There are no blanks in a numeral. -/
theorem IsNumeral.not_blank {text : List Char} {n : Nat} (h : IsNumeral text n) :
    text ≠ [] ∧ ∀ c ∈ text, isBlank c = false := by
  have hdigit : ∀ c : Char, c.isDigit = true → isBlank c = false := by
    intro c hc
    have hbounds : 48 ≤ c.toNat ∧ c.toNat ≤ 57 := by
      simpa [Char.isDigit, UInt32.le_iff_toNat_le] using hc
    simp only [isBlank, Bool.or_eq_false_iff, Bool.and_eq_false_iff, decide_eq_false_iff_not,
      beq_eq_false_iff_ne]
    omega
  obtain ⟨-, digits, hne, hdigits, rfl | rfl, -⟩ := h
  · exact ⟨hne, fun c hc => hdigit c (hdigits c hc)⟩
  · refine ⟨List.cons_ne_nil _ _, List.forall_mem_cons.mpr ⟨by decide, ?_⟩⟩
    exact fun c hc => hdigit c (hdigits c hc)

theorem readNumeral_trim_eq_ok {text : List Char} {n : Nat} :
    readNumeral (trim text) = .ok n ↔ Spells text n := by
  rw [readNumeral_eq_ok]
  constructor
  · intro hcore
    obtain ⟨front, back, htext, hfront, hback⟩ := exists_append_trim text
    exact ⟨front, trim text, back, htext, hfront, hback, hcore⟩
  · rintro ⟨front, core, back, rfl, hfront, hback, hcore⟩
    obtain ⟨hne, hplain⟩ := hcore.not_blank
    rwa [trim_append hfront hback hne hplain]

end LiveTree.Text
