import AppearanceSync.Json.Form
import AppearanceSync.Proofs.Codec.Laws

/-!
# Numbers between other parts

A number is read up to the first character that cannot go on with it.  So it is read alike
alone and in front of a comma or a bracket, and whole numbers are read as they are written.
-/

namespace AppearanceSync.Json

variable {rest : List Char}

/-- What follows does not go on with a number. -/
def Ends (rest : List Char) : Prop :=
  ∀ c ∈ rest.head?, isDigit c = false ∧ c ≠ '.' ∧ c ≠ 'e' ∧ c ≠ 'E'

theorem ends_nil : Ends [] := nofun

theorem ends_cons {c : Char} (h : isDigit c = false ∧ c ≠ '.' ∧ c ≠ 'e' ∧ c ≠ 'E')
    (cs : List Char) : Ends (c :: cs) := by
  rintro _ ⟨⟩
  exact h

/-- The reader takes from the front of a text what it takes from the text alone, in front of
anything that does not go on with a number. -/
def Local {α : Type} (r : Reader α) : Prop :=
  ∀ ⦃cs a left rest⦄, Ends rest → r cs = .ok (a, left) → r (cs ++ rest) = .ok (a, left ++ rest)

/-- A text does not begin with one of these characters. -/
def Unmarked (marks cs : List Char) : Prop := ∀ c ∈ cs.head?, c ∉ marks

theorem Unmarked.head_ne {marks cs : List Char} {c : Char} (h : Unmarked marks (c :: cs))
    {mark : Char} (hmark : mark ∈ marks) (more : List Char) : c :: cs ≠ mark :: more := by
  intro heq
  obtain ⟨rfl, -⟩ := List.cons.inj heq
  exact h c rfl hmark

theorem unmarked_nil (marks : List Char) : Unmarked marks [] := by rintro _ ⟨⟩

theorem unmarked_cons {marks : List Char} {c : Char} (h : c ∉ marks) (cs : List Char) :
    Unmarked marks (c :: cs) := by
  rintro _ ⟨⟩
  exact h

theorem Ends.unmarked (h : Ends rest) : Unmarked ['.', 'e', 'E'] rest := by
  intro c hc
  simpa using (h c hc).2

namespace Number

theorem digitAhead_append (h : Ends rest) (cs : List Char) :
    digitAhead (cs ++ rest) = digitAhead cs := by
  cases cs with
  | cons c cs => rfl
  | nil =>
      cases rest with
      | nil => rfl
      | cons c rest => exact (h c rfl).1

theorem dropWhile_isDigit_of_ends (h : Ends rest) : rest.dropWhile isDigit = rest := by
  cases rest with
  | nil => rfl
  | cons c rest => rw [List.dropWhile_cons, if_neg (by rw [(h c rfl).1]; exact Bool.false_ne_true)]

theorem takeWhile_isDigit_of_ends (h : Ends rest) : rest.takeWhile isDigit = [] := by
  cases rest with
  | nil => rfl
  | cons c rest => rw [List.takeWhile_cons, if_neg (by rw [(h c rfl).1]; exact Bool.false_ne_true)]

theorem dropWhile_isDigit_append (h : Ends rest) (cs : List Char) :
    (cs ++ rest).dropWhile isDigit = cs.dropWhile isDigit ++ rest := by
  rw [List.dropWhile_append]
  split
  · next hnil => rw [dropWhile_isDigit_of_ends h, List.isEmpty_iff.mp hnil, List.nil_append]
  · rfl

theorem takeWhile_isDigit_append (h : Ends rest) (cs : List Char) :
    (cs ++ rest).takeWhile isDigit = cs.takeWhile isDigit := by
  rw [List.takeWhile_append]
  split
  · next hall =>
      rw [takeWhile_isDigit_of_ends h, List.append_nil]
      exact ((List.takeWhile_prefix isDigit).eq_of_length hall).symm
  · rfl

/-- Gathering stops in front of what does not go on with a number. -/
theorem gather_append (h : Ends rest) (max gathered taken : ℕ) (cs : List Char) :
    gather max gathered taken (cs ++ rest) =
      ((gather max gathered taken cs).1, (gather max gathered taken cs).2.1,
        (gather max gathered taken cs).2.2 ++ rest) := by
  induction cs generalizing gathered taken with
  | nil =>
      cases rest with
      | nil => rfl
      | cons c rest =>
          have hc : ¬(isDigit c ∧ gathered * 10 + digitValue c ≤ max) := by simp [(h c rfl).1]
          simp only [List.nil_append, gather, if_neg hc]
  | cons c cs ih =>
      rw [List.cons_append, gather, gather]
      split
      · exact ih _ _
      · rfl

theorem local_readExponentDigits (positive : Bool) (gathered : ℕ) (exponent : Int) (up : Bool) :
    Local (readExponentDigits positive gathered exponent up) := by
  intro cs a left rest hrest h
  cases cs with
  | nil => cases h
  | cons c cs =>
      simp only [readExponentDigits, List.cons_append] at h ⊢
      rw [← List.cons_append, gather_append hrest]
      simp only [digitAhead_append hrest, dropWhile_isDigit_append hrest]
      split at h
      · next hdigit =>
          rw [if_pos hdigit]
          split at h
          · next hahead =>
              rw [if_pos hahead]
              split at h
              · cases h
              · next hsmall =>
                  obtain ⟨rfl, rfl⟩ := Prod.mk.inj (Except.ok.inj h)
                  rw [if_neg hsmall]
          · next hahead =>
              rw [if_neg hahead]
              obtain ⟨value, hvalue, hleft⟩ := bind_eq_ok.mp h
              obtain ⟨rfl, rfl⟩ := Prod.mk.inj (Except.ok.inj hleft)
              exact bind_eq_ok.mpr ⟨value, hvalue, rfl⟩
      · cases h

theorem readExponent_of_unmarked {cs : List Char} (h : Unmarked ['+', '-'] cs) (positive : Bool)
    (gathered : ℕ) (exponent : Int) : readExponent positive gathered exponent cs =
      readExponentDigits positive gathered exponent true cs := by
  cases cs with
  | nil => rfl
  | cons c cs =>
      rw [readExponent.eq_def]
      split
      · next heq => exact absurd heq (h.head_ne (by simp) _)
      · next heq => exact absurd heq (h.head_ne (by simp) _)
      · rfl

theorem readTail_of_unmarked {cs : List Char} (h : Unmarked ['e', 'E'] cs) (positive : Bool)
    (gathered : ℕ) (exponent : Int) : readTail positive gathered exponent cs = (do
      let value ← scaled positive gathered exponent
      .ok (value, cs)) := by
  cases cs with
  | nil => rfl
  | cons c cs =>
      rw [readTail.eq_def]
      split
      · next heq => exact absurd heq (h.head_ne (by simp) _)
      · next heq => exact absurd heq (h.head_ne (by simp) _)
      · rfl

/-- Digits that nothing goes on with write a whole number, unless it is negative and too small
or a zero. -/
theorem readAfterDigits_of_unmarked {cs : List Char} (h : Unmarked ['.', 'e', 'E'] cs)
    (positive : Bool) (gathered : ℕ) : readAfterDigits positive gathered cs =
      .ok (if positive then .natural gathered
        else if gathered = 0 ∨ Int64.minValue.toInt.natAbs < gathered then
          .fraction (-(UInt64.ofNat gathered).toFloat)
        else .negative gathered, cs) := by
  have hsplit : readAfterDigits positive gathered cs =
      if positive then .ok (.natural gathered, cs)
      else if gathered = 0 ∨ Int64.minValue.toInt.natAbs < gathered then
        .ok (.fraction (-(UInt64.ofNat gathered).toFloat), cs)
      else .ok (.negative gathered, cs) := by
    cases cs with
    | nil => rfl
    | cons c cs =>
        rw [readAfterDigits.eq_def]
        split
        · next heq => exact absurd heq (h.head_ne (by simp) _)
        · next heq => exact absurd heq (h.head_ne (by simp) _)
        · next heq => exact absurd heq (h.head_ne (by simp) _)
        · rfl
  rw [hsplit]
  split
  · rfl
  · split <;> rfl

theorem local_readExponent (positive : Bool) (gathered : ℕ) (exponent : Int) :
    Local (readExponent positive gathered exponent) := by
  intro cs a left rest hrest h
  cases cs with
  | nil => cases h
  | cons c cs =>
      by_cases hmark : c ∈ ['+', '-']
      · rcases List.mem_pair.mp hmark with rfl | rfl
        · exact local_readExponentDigits _ _ _ _ hrest h
        · exact local_readExponentDigits _ _ _ _ hrest h
      · rw [readExponent_of_unmarked (unmarked_cons hmark _)] at h
        rw [List.cons_append, readExponent_of_unmarked (unmarked_cons hmark _)]
        exact local_readExponentDigits _ _ _ _ hrest h

theorem local_readTail (positive : Bool) (gathered : ℕ) (exponent : Int) :
    Local (readTail positive gathered exponent) := by
  intro cs a left rest hrest h
  have hplain (hcs : Unmarked ['e', 'E'] cs) (hboth : Unmarked ['e', 'E'] (cs ++ rest)) :
      readTail positive gathered exponent (cs ++ rest) = .ok (a, left ++ rest) := by
    rw [readTail_of_unmarked hcs] at h
    rw [readTail_of_unmarked hboth]
    obtain ⟨value, hvalue, hleft⟩ := bind_eq_ok.mp h
    obtain ⟨rfl, rfl⟩ := Prod.mk.inj (Except.ok.inj hleft)
    exact bind_eq_ok.mpr ⟨value, hvalue, rfl⟩
  cases cs with
  | nil =>
      exact hplain (unmarked_nil _) fun c hc hmark =>
        hrest.unmarked c hc (List.mem_cons_of_mem _ hmark)
  | cons c cs =>
      by_cases hmark : c ∈ ['e', 'E']
      · rcases List.mem_pair.mp hmark with rfl | rfl
        · exact local_readExponent _ _ _ hrest h
        · exact local_readExponent _ _ _ hrest h
      · exact hplain (unmarked_cons hmark _) (unmarked_cons hmark _)

theorem local_readFraction (positive : Bool) (gathered : ℕ) (exponent : Int) :
    Local (readFraction positive gathered exponent) := by
  intro cs a left rest hrest h
  rw [readFraction] at h ⊢
  rw [gather_append hrest]
  simp only [digitAhead_append hrest, dropWhile_isDigit_append hrest] at h ⊢
  split at h
  · next hahead =>
      rw [if_pos hahead]
      exact local_readTail _ _ _ hrest h
  · next hahead =>
      rw [if_neg hahead]
      split at h
      · split at h <;> cases h
      · next htaken =>
          rw [if_neg htaken]
          exact local_readTail _ _ _ hrest h

theorem local_readAfterDigits (positive : Bool) (gathered : ℕ) :
    Local (readAfterDigits positive gathered) := by
  intro cs a left rest hrest h
  have hplain (hcs : Unmarked ['.', 'e', 'E'] cs)
      (hboth : Unmarked ['.', 'e', 'E'] (cs ++ rest)) :
      readAfterDigits positive gathered (cs ++ rest) = .ok (a, left ++ rest) := by
    rw [readAfterDigits_of_unmarked hcs] at h
    obtain ⟨rfl, rfl⟩ := Prod.mk.inj (Except.ok.inj h)
    exact readAfterDigits_of_unmarked hboth _ _
  cases cs with
  | nil => exact hplain (unmarked_nil _) hrest.unmarked
  | cons c cs =>
      by_cases hmark : c ∈ ['.', 'e', 'E']
      · rcases List.mem_cons.mp hmark with rfl | hmark
        · exact local_readFraction _ _ _ hrest h
        · rcases List.mem_pair.mp hmark with rfl | rfl
          · exact local_readExponent _ _ _ hrest h
          · exact local_readExponent _ _ _ hrest h
      · exact hplain (unmarked_cons hmark _) (unmarked_cons hmark _)

theorem local_readAfterMore (positive : Bool) (gathered more : ℕ) :
    Local (readAfterMore positive gathered more) := by
  intro cs a left rest hrest h
  have hplain {cs : List Char} (hcs : Unmarked ['.'] cs) :
      readAfterMore positive gathered more cs = readTail positive gathered more cs := by
    cases cs with
    | nil => rfl
    | cons c cs =>
        rw [readAfterMore.eq_def]
        split
        · next heq => exact absurd heq (hcs.head_ne (by simp) _)
        · rfl
  cases cs with
  | nil =>
      have hunmarked : Unmarked ['.'] rest := fun c hc hmark =>
        hrest.unmarked c hc (by rw [List.mem_singleton.mp hmark]; exact List.mem_cons_self)
      rw [hplain (unmarked_nil _)] at h
      rw [List.nil_append, hplain hunmarked]
      exact local_readTail _ _ _ hrest h
  | cons c cs =>
      by_cases hmark : c = '.'
      · subst hmark
        exact local_readFraction _ _ _ hrest h
      · have hmark : c ∉ ['.'] := by simpa using hmark
        rw [hplain (unmarked_cons hmark _)] at h
        rw [List.cons_append, hplain (unmarked_cons hmark _)]
        exact local_readTail _ _ _ hrest h

theorem local_readDigits (positive : Bool) : Local (readDigits positive) := by
  intro cs a left rest hrest h
  cases cs with
  | nil => cases h
  | cons c cs =>
      rw [readDigits.eq_def] at h ⊢
      simp only [List.cons_append] at h ⊢
      split at h
      · next hzero =>
          rw [if_pos hzero, digitAhead_append hrest]
          split at h
          · cases h
          · next hahead =>
              rw [if_neg hahead]
              exact local_readAfterDigits _ _ hrest h
      · next hzero =>
          rw [if_neg hzero]
          split at h
          · next hdigit =>
              rw [if_pos hdigit, ← List.cons_append, gather_append hrest]
              simp only [digitAhead_append hrest, dropWhile_isDigit_append hrest,
                takeWhile_isDigit_append hrest]
              split at h
              · next hahead =>
                  rw [if_pos hahead]
                  exact local_readAfterMore _ _ _ hrest h
              · next hahead =>
                  rw [if_neg hahead]
                  exact local_readAfterDigits _ _ hrest h
          · cases h

theorem local_read : Local read := by
  intro cs a left rest hrest h
  cases cs with
  | nil => cases h
  | cons c cs =>
      by_cases hminus : c = '-'
      · subst hminus
        exact local_readDigits _ hrest h
      · have hread (cs : List Char) : read (c :: cs) = readDigits true (c :: cs) := by
          rw [read.eq_def]
          split
          · next heq => exact absurd (List.cons.inj heq).1 hminus
          · rfl
        rw [hread] at h
        rw [List.cons_append, hread]
        exact local_readDigits _ hrest h

/-! ## Whole numbers -/

theorem isDigit_of_mem_toDigits {n : ℕ} {c : Char} (h : c ∈ Nat.toDigits 10 n) : isDigit c :=
  Nat.isDigit_of_mem_toDigits (by decide) (by decide) h

theorem le_ofDigitChars (ds : List Char) (n : ℕ) : n ≤ Nat.ofDigitChars 10 ds n := by
  induction ds generalizing n with
  | nil => exact Nat.le_refl n
  | cons d ds ih =>
      have hmore := ih (10 * n + (d.toNat - '0'.toNat))
      rw [Nat.ofDigitChars_cons]
      omega

/-- Digits are gathered to the end if the number that they write fits. -/
theorem gather_digits {ds : List Char} {max gathered : ℕ} (hds : ∀ c ∈ ds, isDigit c)
    (hmax : Nat.ofDigitChars 10 ds gathered ≤ max) (h : Ends rest) (taken : ℕ) :
    gather max gathered taken (ds ++ rest) =
      (Nat.ofDigitChars 10 ds gathered, taken + ds.length, rest) := by
  rw [gather_append h]
  induction ds generalizing gathered taken with
  | nil => rfl
  | cons d ds ih =>
      obtain ⟨hd, hds⟩ := List.forall_mem_cons.mp hds
      have hstep : gathered * 10 + digitValue d = 10 * gathered + (d.toNat - '0'.toNat) := by
        rw [Nat.mul_comm, digitValue]
      rw [Nat.ofDigitChars_cons] at hmax ⊢
      have hfits : isDigit d ∧ gathered * 10 + digitValue d ≤ max := by
        rw [hstep]
        exact ⟨hd, Nat.le_trans (le_ofDigitChars ds _) hmax⟩
      rw [gather, if_pos hfits, hstep, ih hds hmax, List.length_cons]
      rw [Nat.add_assoc, Nat.add_comm 1]

/-- No number but zero is written with a zero in front. -/
theorem head?_toDigits_ne {n : ℕ} (hn : n ≠ 0) : (Nat.toDigits 10 n).head? ≠ some '0' := by
  induction n using Nat.strongRecOn with
  | ind n ih =>
      by_cases hlt : n < 10
      · rw [Nat.toDigits_of_lt_base hlt, List.head?_cons]
        intro heq
        have hvalue := Nat.toNat_digitChar_of_lt_ten hlt
        rw [Option.some.inj heq] at hvalue
        exact hn (Nat.add_left_cancel hvalue.symm)
      · have hle := Nat.not_lt.mp hlt
        rw [Nat.toDigits_of_base_le (by decide) hle,
          List.head?_append_of_ne_nil _ Nat.toDigits_ne_nil]
        exact ih (n / 10) (by omega) (by omega)

theorem digitAhead_of_ends (h : Ends rest) : digitAhead rest = false := digitAhead_append h []

/-- The digits of a number are read as the number. -/
theorem readDigits_toDigits {n : ℕ} (hn : n ≤ maxGathered) (h : Ends rest) (positive : Bool) :
    readDigits positive (Nat.toDigits 10 n ++ rest) = readAfterDigits positive n rest := by
  by_cases hzero : n = 0
  · subst hzero
    rw [Nat.toDigits_zero, List.singleton_append, readDigits.eq_def]
    simp only [if_true, digitAhead_of_ends h]
    rfl
  · have hhead := head?_toDigits_ne hzero
    have hdigit : ∀ c ∈ Nat.toDigits 10 n, isDigit c := fun _ => isDigit_of_mem_toDigits
    have hvalue : Nat.ofDigitChars 10 (Nat.toDigits 10 n) 0 = n :=
      Nat.ofDigitChars_toDigits (by decide) (by decide)
    have hmax : Nat.ofDigitChars 10 (Nat.toDigits 10 n) 0 ≤ maxGathered := by rwa [hvalue]
    have hgather := gather_digits hdigit hmax h 0
    rw [hvalue] at hgather
    generalize hds : Nat.toDigits 10 n = ds at *
    cases ds with
    | nil => exact absurd hds Nat.toDigits_ne_nil
    | cons d ds =>
        have hne : d ≠ '0' := by simpa using hhead
        rw [List.cons_append] at hgather ⊢
        rw [readDigits.eq_def]
        simp only [if_neg hne, hdigit d List.mem_cons_self, if_true, hgather,
          digitAhead_of_ends h]
        rfl

theorem read_toDigits {n : ℕ} (hn : n ≤ maxGathered) (h : Ends rest) :
    read (Nat.toDigits 10 n ++ rest) = .ok (.natural n, rest) := by
  have hplain : read (Nat.toDigits 10 n ++ rest) = readDigits true (Nat.toDigits 10 n ++ rest) := by
    rw [read.eq_def]
    split
    · next more heq =>
        obtain ⟨d, ds, hds⟩ := List.exists_cons_of_ne_nil (Nat.toDigits_ne_nil (b := 10) (n := n))
        have hdigit : isDigit d := isDigit_of_mem_toDigits (hds ▸ List.mem_cons_self)
        rw [hds] at heq
        obtain ⟨rfl, -⟩ := List.cons.inj heq
        cases hdigit
    · rfl
  rw [hplain, readDigits_toDigits hn h, readAfterDigits_of_unmarked h.unmarked]
  rfl

theorem read_minus_toDigits {n : ℕ} (hzero : n ≠ 0) (hn : n ≤ Int64.minValue.toInt.natAbs)
    (h : Ends rest) : read ('-' :: Nat.toDigits 10 n ++ rest) = .ok (.negative n, rest) := by
  have hgathered : n ≤ maxGathered := Nat.le_trans hn (by decide)
  have hfits : ¬(n = 0 ∨ Int64.minValue.toInt.natAbs < n) := by
    rintro (rfl | hlt)
    · exact hzero rfl
    · exact Nat.not_lt.mpr hn hlt
  change readDigits false (Nat.toDigits 10 n ++ rest) = _
  rw [readDigits_toDigits hgathered h, readAfterDigits_of_unmarked h.unmarked, if_neg hfits]
  rfl

end Number
end AppearanceSync.Json
