import AppearanceSync.Proofs.Json.Fields
import AppearanceSync.Wire.State
import AppearanceSync.Wire.Message
import Mathlib.Data.List.TakeWhile
import Mathlib.Data.Nat.Bitwise

/-!
# Flags are read as they are written

Every bit of a set of flags is written once: a bit with a name by its name, and the others
together as one hexadecimal number.  So reading what is written gives the same bits, whether
they have names or not.
-/

namespace AppearanceSync

/-! ## Pieces between bars, and hexadecimal numbers -/

namespace Text

theorem dropWhile_isBlank_of_none {cs : List Char} (h : ∀ c ∈ cs, isBlank c = false) :
    cs.dropWhile isBlank = cs := by
  cases cs with
  | nil => rfl
  | cons c cs =>
      rw [List.dropWhile_cons, if_neg (by rw [h c List.mem_cons_self]; exact Bool.false_ne_true)]

/-- Blanks around a text without blanks are trimmed. -/
theorem trim_append {lead text tail : List Char} (hlead : ∀ c ∈ lead, isBlank c)
    (htext : ∀ c ∈ text, isBlank c = false) (htail : ∀ c ∈ tail, isBlank c) :
    trim (lead ++ text ++ tail) = text := by
  have hreverse : ∀ c ∈ text.reverse, isBlank c = false := fun c hc =>
    htext c (List.mem_reverse.mp hc)
  rw [trim, List.append_assoc, List.dropWhile_append_of_pos hlead]
  cases text with
  | nil =>
      rw [List.nil_append, List.dropWhile_eq_nil_iff.mpr htail]
      rfl
  | cons c cs =>
      have hc : ¬isBlank c := by rw [htext c List.mem_cons_self]; exact Bool.false_ne_true
      rw [List.cons_append, List.dropWhile_cons, if_neg hc, ← List.cons_append,
        List.reverse_append,
        List.dropWhile_append_of_pos fun d hd => htail d (List.mem_reverse.mp hd),
        dropWhile_isBlank_of_none hreverse, List.reverse_reverse]

theorem pieces_of_notMem {separator : Char} {cs : List Char} (h : separator ∉ cs) :
    pieces separator cs = [cs] := by
  induction cs with
  | nil => rfl
  | cons c cs ih =>
      obtain ⟨hc, hcs⟩ := List.ne_and_not_mem_of_not_mem_cons h
      rw [pieces, if_neg (Ne.symm hc), ih hcs]

theorem pieces_append {separator : Char} {cs : List Char} (h : separator ∉ cs) (more : List Char) :
    pieces separator (cs ++ separator :: more) = cs :: pieces separator more := by
  induction cs with
  | nil => rw [List.nil_append, pieces, if_pos rfl]
  | cons c cs ih =>
      obtain ⟨hc, hcs⟩ := List.ne_and_not_mem_of_not_mem_cons h
      rw [List.cons_append, pieces, if_neg (Ne.symm hc), ih hcs]

theorem digitsFrom?_append {base acc n : ℕ} {ds : List Char}
    (h : digitsFrom? base acc ds = some n) (more : List Char) :
    digitsFrom? base acc (ds ++ more) = digitsFrom? base n more := by
  induction ds generalizing acc with
  | nil => rw [Option.some.inj h, List.nil_append]
  | cons d ds ih =>
      rw [digitsFrom?] at h
      rw [List.cons_append, digitsFrom?]
      split at h
      · exact ih h
      · cases h

theorem digitBelow?_digitChar : ∀ n < 16, digitBelow? 16 (Nat.digitChar n) = some n := by decide

theorem digitsFrom?_toDigits (n : ℕ) : digitsFrom? 16 0 (Nat.toDigits 16 n) = some n := by
  have hlast (acc : ℕ) {d : ℕ} (hd : d < 16) :
      digitsFrom? 16 acc [Nat.digitChar d] = some (acc * 16 + d) := by
    rw [digitsFrom?, digitBelow?_digitChar d hd]
    rfl
  induction n using Nat.strongRecOn with
  | ind n ih =>
      by_cases hlt : n < 16
      · rw [Nat.toDigits_of_lt_base hlt, hlast 0 hlt, Nat.zero_mul, Nat.zero_add]
      · have hle := Nat.not_lt.mp hlt
        rw [Nat.toDigits_of_base_le (by decide) hle, digitsFrom?_append (ih (n / 16) (by omega)),
          hlast _ (Nat.mod_lt n (by decide)), Nat.div_add_mod']

/-- No sign is taken from hexadecimal digits. -/
theorem natUpTo?_toDigits {n max : ℕ} (h : n ≤ max) :
    natUpTo? 16 max (Nat.toDigits 16 n) = some n := by
  have hread := digitsFrom?_toDigits n
  obtain ⟨d, ds, hds⟩ := List.exists_cons_of_ne_nil (Nat.toDigits_ne_nil (b := 16) (n := n))
  rw [hds] at hread ⊢
  rw [natUpTo?]
  · change (digitsFrom? 16 0 (d :: ds)).filter (· ≤ max) = _
    rw [hread]
    exact Option.filter_some_pos (decide_eq_true h)
  · rintro more heq
    obtain ⟨rfl, -⟩ := List.cons.inj heq
    cases hread

theorem exists_of_mem_toDigits {n : ℕ} {c : Char} (h : c ∈ Nat.toDigits 16 n) :
    ∃ d < 16, c = Nat.digitChar d := by
  induction n using Nat.strongRecOn with
  | ind n ih =>
      by_cases hlt : n < 16
      · rw [Nat.toDigits_of_lt_base hlt] at h
        exact ⟨n, hlt, List.mem_singleton.mp h⟩
      · rw [Nat.toDigits_of_base_le (by decide) (Nat.not_lt.mp hlt)] at h
        rcases List.mem_append.mp h with h | h
        · exact ih (n / 16) (by omega) h
        · exact ⟨n % 16, Nat.mod_lt n (by decide), List.mem_singleton.mp h⟩

end Text

/-! ## Flags -/

namespace FlagText

variable {names : List (String × ℕ)} {max bits : ℕ}

/-- A piece that blanks and bars do not break up. -/
structure Plain (piece : List Char) : Prop where
  ne_nil : piece ≠ []
  unbroken : ∀ c ∈ piece, c ≠ '|' ∧ Text.isBlank c = false

/-- Single bits whose names are told apart from each other and from numbers. -/
structure Legible (names : List (String × ℕ)) : Prop where
  single : ∀ n ∈ names, n.2 = 2 ^ n.2.log2
  nodup : (names.map Prod.fst).Nodup
  ne_nil : ∀ n ∈ names, n.1.toList ≠ []
  unbroken : ∀ n ∈ names, n.1.toList.all fun c => c != '|' && !Text.isBlank c
  lettered : ∀ n ∈ names, '0' ∉ n.1.toList

theorem Legible.plain (h : Legible names) {n : String × ℕ} (hn : n ∈ names) :
    Plain n.1.toList where
  ne_nil := h.ne_nil n hn
  unbroken c hc := by simpa using List.all_eq_true.mp (h.unbroken n hn) c hc

/-! ### Pieces -/

/-- Blanks around a piece do not change what it stands for. -/
theorem union?_around {lead piece tail : List Char} (hlead : ∀ c ∈ lead, c = ' ')
    (hpiece : Plain piece) (htail : ∀ c ∈ tail, c = ' ') (pieces : List (List Char)) :
    union? names max ((lead ++ piece ++ tail) :: pieces) = (do
      let bits ← piece? names max piece
      let more ← union? names max pieces
      some (bits ||| more)) := by
  have hblank {c : Char} (h : c = ' ') : Text.isBlank c := by rw [h]; decide
  rw [union?, Text.trim_append (fun c hc => hblank (hlead c hc))
    (fun c hc => (hpiece.unbroken c hc).2) fun c hc => hblank (htail c hc)]

theorem union?_cons {piece : List Char} (hpiece : Plain piece) (pieces : List (List Char)) :
    union? names max (piece :: pieces) = (do
      let bits ← piece? names max piece
      let more ← union? names max pieces
      some (bits ||| more)) := by
  have hnone : ∀ c ∈ ([] : List Char), c = ' ' := nofun
  rw [← union?_around hnone hpiece hnone pieces, List.append_nil]
  rfl

theorem notMem_plain {lead piece tail : List Char} (hlead : ∀ c ∈ lead, c = ' ')
    (hpiece : Plain piece) (htail : ∀ c ∈ tail, c = ' ') : '|' ∉ lead ++ piece ++ tail := by
  intro hbar
  rcases List.mem_append.mp hbar with hbar | hbar
  · rcases List.mem_append.mp hbar with hbar | hbar
    · cases hlead _ hbar
    · exact (hpiece.unbroken _ hbar).1 rfl
  · cases htail _ hbar

/-- Joined pieces stand for what the pieces stand for. -/
theorem union?_pieces_join {pieces : List (List Char)} {piece lead : List Char}
    (hlead : ∀ c ∈ lead, c = ' ') (hplain : ∀ p ∈ piece :: pieces, Plain p) :
    union? names max (Text.pieces '|' (lead ++ join (piece :: pieces))) =
      union? names max (piece :: pieces) := by
  have hnone : ∀ c ∈ ([] : List Char), c = ' ' := nofun
  have hspace : ∀ c ∈ [' '], c = ' ' := fun _ => List.mem_singleton.mp
  induction pieces generalizing piece lead with
  | nil =>
      have hpiece := hplain piece List.mem_cons_self
      rw [join, ← List.append_nil (lead ++ piece),
        Text.pieces_of_notMem (notMem_plain hlead hpiece hnone), union?_around hlead hpiece hnone,
        union?_cons hpiece]
  | cons next pieces ih =>
      obtain ⟨hpiece, hnext⟩ := List.forall_mem_cons.mp hplain
      have hjoined : lead ++ join (piece :: next :: pieces) =
          lead ++ piece ++ [' '] ++ '|' :: ([' '] ++ join (next :: pieces)) := by
        rw [join]
        · simp
        · exact List.cons_ne_nil _ _
      rw [hjoined, Text.pieces_append (notMem_plain hlead hpiece hspace),
        union?_around hlead hpiece hspace, ih hspace hnext, union?_cons hpiece]

theorem piece?_name (h : Legible names) {n : String × ℕ} (hn : n ∈ names) :
    piece? names max n.1.toList = some n.2 := by
  rw [piece?]
  · rw [Json.find?_name h.nodup hn]
    rfl
  · intro digits heq
    exact h.lettered n hn (heq ▸ List.mem_cons_self)

theorem plain_hexadecimal (n : ℕ) : Plain ('0' :: 'x' :: Nat.toDigits 16 n) where
  ne_nil := List.cons_ne_nil _ _
  unbroken := by
    have hdigit : ∀ d < 16, Nat.digitChar d ≠ '|' ∧ Text.isBlank (Nat.digitChar d) = false := by
      decide
    intro c hc
    rcases List.mem_cons.mp hc with rfl | hc
    · decide
    · rcases List.mem_cons.mp hc with rfl | hc
      · decide
      · obtain ⟨d, hd, rfl⟩ := Text.exists_of_mem_toDigits hc
        exact hdigit d hd

/-! ### Bits -/

/-- A set of bits is split into those of a mask and the others. -/
theorem and_or_sub (bits mask : ℕ) : (bits &&& mask) ||| (bits - (bits &&& mask)) = bits := by
  induction bits using Nat.strongRecOn generalizing mask with
  | ind bits ih =>
      by_cases hzero : bits = 0
      · rw [hzero, Nat.zero_and]
        rfl
      · have hle : (bits &&& mask) / 2 ≤ bits / 2 := Nat.div_le_div_right Nat.and_le_left
        have hlow := @Nat.and_mod_two_eq_one bits mask
        have hrest : (bits - (bits &&& mask)) / 2 = bits / 2 - (bits / 2 &&& mask / 2) := by
          rw [← Nat.and_div_two]
          omega
        have hdiv : ((bits &&& mask) ||| (bits - (bits &&& mask))) / 2 = bits / 2 := by
          rw [Nat.or_div_two, hrest, Nat.and_div_two]
          exact ih (bits / 2) (by omega) (mask / 2)
        have hmod := @Nat.or_mod_two_eq_one (bits &&& mask) (bits - (bits &&& mask))
        omega

theorem named_cons (n : String × ℕ) (names : List (String × ℕ)) :
    named (n :: names) = n.2 ||| named names := by
  have hfrom (start : ℕ) :
      names.foldl (fun bits n => bits ||| n.2) start = start ||| named names := by
    induction names generalizing start with
    | nil => exact (Nat.or_zero start).symm
    | cons m names ih =>
        rw [named, List.foldl_cons, List.foldl_cons, ih, ih, Nat.zero_or, Nat.or_assoc]
  rw [named, List.foldl_cons, hfrom, Nat.zero_or]

theorem and_eq_zero_of_single {n : ℕ} (hn : n = 2 ^ n.log2) (h : bits &&& n ≠ n) :
    bits &&& n = 0 := by
  generalize n.log2 = i at hn
  subst hn
  rw [Nat.and_two_pow] at h ⊢
  cases hbit : bits.testBit i with
  | true => exact absurd (by rw [hbit]; exact Nat.one_mul _) h
  | false => exact Nat.zero_mul _

/-- The names that are written stand for the bits with names. -/
theorem union?_known (h : Legible names) {known : List (String × ℕ)}
    (hknown : ∀ n ∈ known, n ∈ names) {tail : List (List Char)} {more : ℕ}
    (htail : union? names max tail = some more) :
    union? names max
        ((known.filter fun n => bits &&& n.2 == n.2).map (fun n => n.1.toList) ++ tail) =
      some ((bits &&& named known) ||| more) := by
  induction known with
  | nil => rw [named, List.foldl_nil, Nat.and_zero, Nat.zero_or, ← htail]; rfl
  | cons n known ih =>
      obtain ⟨hn, hknown⟩ := List.forall_mem_cons.mp hknown
      rw [named_cons, Nat.and_or_distrib_left, Nat.or_assoc]
      by_cases hkept : bits &&& n.2 = n.2
      · rw [List.filter_cons, if_pos (beq_iff_eq.mpr hkept), List.map_cons, List.cons_append,
          union?_cons (h.plain hn), piece?_name h hn, ih hknown, hkept]
        rfl
      · rw [List.filter_cons, if_neg (by rwa [beq_iff_eq]), ih hknown,
          and_eq_zero_of_single (h.single n hn) hkept, Nat.zero_or]

theorem plain_of_mem_parts (h : Legible names) {piece : List Char}
    (hpiece : piece ∈ parts names bits) : Plain piece := by
  have hknown {piece : List Char}
      (hpiece : piece ∈ (names.filter fun n => bits &&& n.2 == n.2).map fun n => n.1.toList) :
      Plain piece := by
    obtain ⟨n, hn, rfl⟩ := List.mem_map.mp hpiece
    exact h.plain (List.mem_filter.mp hn).1
  rw [parts] at hpiece
  split at hpiece
  · exact hknown hpiece
  · rcases List.mem_append.mp hpiece with hpiece | hpiece
    · exact hknown hpiece
    · rw [List.mem_singleton.mp hpiece]
      exact plain_hexadecimal _

theorem union?_parts (h : Legible names) (hmax : bits ≤ max) :
    union? names max (parts names bits) = some bits := by
  have hsplit := and_or_sub bits (named names)
  rw [parts]
  split
  · next hunknown =>
      rw [hunknown] at hsplit
      have hnone : union? names max [] = some 0 := rfl
      have hread := @union?_known names max bits h names (fun _ hn => hn) _ _ hnone
      rwa [List.append_nil, hsplit] at hread
  · have hhex : union? names max
        ['0' :: 'x' :: Nat.toDigits 16 (bits - (bits &&& named names))] =
        some (bits - (bits &&& named names)) := by
      rw [union?_cons (plain_hexadecimal _)]
      change (Text.natUpTo? 16 max _ >>= _) = _
      rw [Text.natUpTo?_toDigits (Nat.le_trans (Nat.sub_le _ _) hmax)]
      exact congrArg some (Nat.or_zero _)
    have hread := @union?_known names max bits h names (fun _ hn => hn) _ _ hhex
    rwa [hsplit] at hread

/-- What is written for a set of bits stands for the same bits. -/
theorem read?_write (h : Legible names) (hmax : bits ≤ max) :
    read? names max (write names bits) = some bits := by
  have hread := union?_parts h hmax
  have hplain : ∀ p ∈ parts names bits, Plain p := fun _ => plain_of_mem_parts h
  rw [read?, write]
  generalize parts names bits = pieces at hread hplain
  cases pieces with
  | nil => exact hread
  | cons piece pieces =>
      obtain ⟨c, cs, hcs⟩ := List.exists_cons_of_ne_nil (hplain piece List.mem_cons_self).ne_nil
      have hc : Text.isBlank c = false :=
        ((hplain piece List.mem_cons_self).unbroken c (hcs ▸ List.mem_cons_self)).2
      have hfirst : ¬(join (piece :: pieces)).all Text.isBlank := by
        subst hcs
        cases pieces with
        | nil => simp [join, hc]
        | cons next pieces => simp [join, hc]
      have hnone : ∀ c ∈ ([] : List Char), c = ' ' := nofun
      rw [if_neg hfirst, ← hread, ← union?_pieces_join hnone hplain]
      rfl

theorem legible_draw : Legible DrawFlags.names :=
  ⟨by decide, by decide, by decide, by decide, by decide⟩

theorem legible_play : Legible PlayFlags.names :=
  ⟨by decide, by decide, by decide, by decide, by decide⟩

end FlagText
end AppearanceSync
