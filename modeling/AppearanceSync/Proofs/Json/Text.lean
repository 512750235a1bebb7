import AppearanceSync.Json.Form
import Mathlib.Data.Nat.Notation

/-!
# Texts are read as they are written

Every character is either written as it is or escaped, and an escape is read as the character
that it stands for.  So a text comes back whatever characters it has, and what follows its
closing quote is left.
-/

namespace AppearanceSync.Json

/-- Control characters are read by their number. -/
theorem fourHexDigits?_control :
    ∀ n < 32, fourHexDigits? '0' '0' (hexDigit (n / 16)) (hexDigit (n % 16)) = some n := by
  decide

theorem readEscape_control {c : Char} (h : c < ' ') (rest : List Char) :
    readEscape ('u' :: '0' :: '0' :: hexDigit (c.toNat / 16) :: hexDigit (c.toNat % 16) :: rest) =
      .ok (c, rest) := by
  have hlt : c.toNat < 32 := h
  have htrailing : isTrailingHalf c.toNat = false := by
    rw [isTrailingHalf, decide_eq_false (by omega), Bool.false_and]
  have hleading : isLeadingHalf c.toNat = false := by
    rw [isLeadingHalf, decide_eq_false (by omega), Bool.false_and]
  simp only [readEscape, readNumberedChar, readFourHex, fourHexDigits?_control c.toNat hlt]
  change (if isTrailingHalf c.toNat then _ else if isLeadingHalf c.toNat then _ else _) = _
  rw [htrailing, hleading, Char.ofNat_toNat]
  rfl

/-- A character is written as it is, or it is escaped and read back. -/
theorem writeChar_cases (c : Char) :
    (writeChar c = [c] ∧ c ≠ '"' ∧ c ≠ '\\' ∧ ¬c < ' ') ∨
      ∃ escape, writeChar c = '\\' :: escape ∧
        ∀ rest, readEscape (escape ++ rest) = .ok (c, rest) := by
  rw [writeChar]
  split
  · next h => exact Or.inr ⟨['"'], rfl, fun rest => by rw [h]; rfl⟩
  split
  · next h => exact Or.inr ⟨['\\'], rfl, fun rest => by rw [h]; rfl⟩
  split
  · next h => exact Or.inr ⟨['b'], rfl, fun rest => by rw [h]; rfl⟩
  split
  · next h => exact Or.inr ⟨['t'], rfl, fun rest => by rw [h]; rfl⟩
  split
  · next h => exact Or.inr ⟨['n'], rfl, fun rest => by rw [h]; rfl⟩
  split
  · next h => exact Or.inr ⟨['f'], rfl, fun rest => by rw [h]; rfl⟩
  split
  · next h => exact Or.inr ⟨['r'], rfl, fun rest => by rw [h]; rfl⟩
  split
  · next h => exact Or.inr ⟨_, rfl, readEscape_control h⟩
  · next hquote hslash _ _ _ _ _ hcontrol => exact Or.inl ⟨rfl, hquote, hslash, hcontrol⟩

theorem readCharsWithin_write {fuel : ℕ} (text rest : List Char)
    (hfuel : (text.flatMap writeChar).length < fuel) :
    readCharsWithin fuel (text.flatMap writeChar ++ '"' :: rest) = .ok (text, rest) := by
  induction text generalizing fuel with
  | nil =>
      obtain ⟨fuel, rfl⟩ := Nat.exists_eq_succ_of_ne_zero (Nat.ne_zero_of_lt hfuel)
      rfl
  | cons c text ih =>
      rw [List.flatMap_cons] at hfuel ⊢
      rw [List.append_assoc]
      obtain ⟨fuel, rfl⟩ := Nat.exists_eq_succ_of_ne_zero (Nat.ne_zero_of_lt hfuel)
      rcases writeChar_cases c with ⟨hplain, hquote, hslash, hcontrol⟩ | ⟨escape, hescape, hread⟩
      · rw [hplain] at hfuel ⊢
        have hmore := ih (Nat.lt_of_succ_lt_succ hfuel)
        simp only [List.cons_append, List.nil_append, readCharsWithin, if_neg hquote,
          if_neg hslash, if_neg hcontrol, hmore]
        rfl
      · rw [hescape, List.length_append] at hfuel
        have hless : (text.flatMap writeChar).length < fuel := by
          rw [List.length_cons] at hfuel
          omega
        rw [hescape, List.cons_append, readCharsWithin, if_neg (by decide), if_pos rfl, hread]
        change (readCharsWithin fuel _ >>= fun p => Except.ok (c :: p.1, p.2)) = _
        rw [ih hless]
        rfl

theorem readChars_write (text rest : List Char) :
    readChars (text.flatMap writeChar ++ '"' :: rest) = .ok (text, rest) := by
  refine readCharsWithin_write text rest ?_
  rw [List.length_append, List.length_cons]
  omega

end AppearanceSync.Json
