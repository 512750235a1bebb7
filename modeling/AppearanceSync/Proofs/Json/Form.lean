import AppearanceSync.Proofs.Json.Number
import AppearanceSync.Proofs.Json.Text

/-!
# Values are read as they are written

What is written for a value is read back as the value if all of its real numbers are finite.
A number that is not finite is written as no value, which no number is read from; so a value
with such a number is refused, and never read as another value.

That the digits of a finite number are read back as the same number is taken for granted
here, number by number: see `ReadsBack`.
-/

namespace AppearanceSync.Json

variable {α β : Type} {a : α} {b : β} {rest rest' : List Char} {xs ys : List Real32}

/-! ## What is read back -/

/-- The text of a number is read as the number. -/
def ReadsBack (x : Real32) : Prop := Form.real.read x.render = .ok (x, [])

instance (x : Real32) : Decidable (ReadsBack x) :=
  decidable_of_iff ((Form.real.read x.render).toOption = some (x, [])) (by
    rw [ReadsBack]
    cases Form.real.read x.render with
    | error fault => simp [Except.toOption]
    | ok result => simp [Except.toOption])

/-- All of these numbers that are finite are read back. -/
def ReadBack (xs : List Real32) : Prop := ∀ x ∈ xs, x.isFinite → ReadsBack x

instance (xs : List Real32) : Decidable (ReadBack xs) :=
  inferInstanceAs (Decidable (∀ x ∈ xs, x.isFinite → ReadsBack x))

theorem ReadBack.left (h : ReadBack (xs ++ ys)) : ReadBack xs :=
  fun x hx => h x (List.mem_append_left ys hx)

theorem ReadBack.right (h : ReadBack (xs ++ ys)) : ReadBack ys :=
  fun x hx => h x (List.mem_append_right xs hx)

/-- What comes back of a value that has these real numbers. -/
def echo (xs : List Real32) (a : α) (rest : List Char) : Except Fault (α × List Char) :=
  if xs.all Real32.isFinite then .ok (a, rest) else .error .mismatch

theorem ok_bind {ε : Type} (a : α) (f : α → Except ε β) : (Except.ok a >>= f) = f a := rfl

/-- One value is read after another. -/
theorem echo_bind {f : α × List Char → Except Fault (β × List Char)}
    (h : f (a, rest) = echo ys b rest') : echo xs a rest >>= f = echo (xs ++ ys) b rest' := by
  rw [echo, echo, List.all_append]
  cases hxs : xs.all Real32.isFinite with
  | false => rfl
  | true =>
      rw [if_pos rfl, Bool.true_and]
      exact h

/-- Nothing more is read after a value. -/
theorem echo_map {f : α × List Char → Except Fault (β × List Char)}
    (h : f (a, rest) = .ok (b, rest')) : echo xs a rest >>= f = echo xs b rest' := by
  have hdone : f (a, rest) = echo [] b rest' := h
  rw [echo_bind hdone, List.append_nil]

/-- The text begins with a character that a value can begin with. -/
def Opens (cs : List Char) : Prop := ∃ c more, cs = c :: more ∧ isBlank c = false ∧ c ≠ ']'

namespace Form

/-- The value, which has these real numbers, is read as it is written. -/
structure Echoes (form : Form α) (a : α) (xs : List Real32) : Prop where
  opens : Opens (form.write a)
  reads : ReadBack xs → ∀ rest, Ends rest → form.read (form.write a ++ rest) = echo xs a rest

end Form

theorem skipBlanks_cons {c : Char} (h : isBlank c = false) (cs : List Char) :
    skipBlanks (c :: cs) = c :: cs := by
  rw [skipBlanks, List.dropWhile_cons, if_neg (by rw [h]; exact Bool.false_ne_true)]

theorem readFrom_cons {starts : Char → Bool} {body : Reader α} {c : Char} {cs : List Char}
    (hblank : isBlank c = false) (hstarts : starts c) :
    readFrom starts body (c :: cs) = body (c :: cs) := by
  rw [readFrom, skipBlanks_cons hblank]
  exact if_pos hstarts

/-! ## Parts between commas -/

/-- Parts with a comma in front of each, but not of the first part of all. -/
def listed (first : Bool) : List (List Char) → List Char
  | [] => []
  | part :: parts => (if first then part else ',' :: part) ++ listed false parts

theorem separated_cons (part : List Char) (parts : List (List Char)) :
    separated (part :: parts) = part ++ listed false parts := by
  induction parts generalizing part with
  | nil => exact (List.append_nil part).symm
  | cons next parts ih =>
      rw [separated, ih]
      · rfl
      · exact List.cons_ne_nil _ _

theorem separated_eq_listed (parts : List (List Char)) : separated parts = listed true parts := by
  cases parts with
  | nil => rfl
  | cons part parts => exact separated_cons part parts

theorem listed_append (first : Bool) (parts more : List (List Char)) :
    listed first (parts ++ more) = listed first parts ++ listed (first && parts.isEmpty) more := by
  induction parts generalizing first with
  | nil => rw [List.isEmpty_nil, Bool.and_true]; rfl
  | cons part parts ih =>
      rw [List.cons_append, listed, listed, ih, List.append_assoc, List.isEmpty_cons,
        Bool.and_false, Bool.false_and]

theorem length_le_listed (first : Bool) (parts : List (List Char)) :
    parts.length ≤ (listed first parts).length + 1 := by
  have hmore (parts : List (List Char)) : parts.length ≤ (listed false parts).length := by
    induction parts with
    | nil => exact Nat.le_refl 0
    | cons part parts ih =>
        rw [listed, if_neg Bool.false_ne_true, List.length_append, List.length_cons,
          List.length_cons]
        omega
  cases parts with
  | nil => exact Nat.zero_le _
  | cons part parts =>
      have hparts := hmore parts
      rw [listed, List.length_append, List.length_cons]
      omega

/-- What follows a part does not go on with a number. -/
theorem ends_listed {rest : List Char} (h : Ends rest) (parts : List (List Char)) :
    Ends (listed false parts ++ rest) := by
  cases parts with
  | nil => exact h
  | cons part parts => exact ends_cons (by decide) _

theorem nextElement_listed {part : List Char} (h : Opens part) (first : Bool) (rest : List Char) :
    nextElement first ((if first then part else ',' :: part) ++ rest) =
      .ok (true, part ++ rest) := by
  obtain ⟨c, more, rfl, hblank, hc⟩ := h
  have hskip := skipBlanks_cons hblank (more ++ rest)
  cases first with
  | true =>
      change nextElement true (c :: (more ++ rest)) = _
      simp only [nextElement, hskip, if_neg hc]
      rfl
  | false =>
      change nextElement false (',' :: c :: (more ++ rest)) = _
      simp only [nextElement, skipBlanks_cons (c := ',') rfl, hskip, if_neg hc]
      rfl

theorem nextMember_listed (first : Bool) (name rest : List Char) :
    nextMember first ((if first then '"' :: name else ',' :: '"' :: name) ++ rest) =
      .ok (true, name ++ rest) := by
  cases first <;> rfl

/-! ## Values without parts -/

namespace Form

variable {form : Form α}

theorem Echoes.refine (h : form.Echoes a xs) {forth : α → Option β} {back : β → α}
    (hback : back b = a) (hforth : forth a = some b) : (form.refine forth back).Echoes b xs := by
  subst hback
  refine ⟨h.opens, fun hxs rest hrest => ?_⟩
  change (form.read (form.write (back b) ++ rest) >>= _) = _
  rw [h.reads hxs rest hrest]
  refine echo_map ?_
  simp only [hforth]

theorem Echoes.map (h : form.Echoes a xs) {forth : α → β} {back : β → α} (hback : back b = a)
    (hforth : forth a = b) : (form.map forth back).Echoes b xs :=
  h.refine hback (congrArg some hforth)

/-! ## Numbers, words and texts -/

/-- What a number begins with. -/
def startsNumber (c : Char) : Bool := c == '-' || isDigit c

theorem not_blank_of_startsNumber {c : Char} (h : startsNumber c) : isBlank c = false := by
  by_contra hblank
  simp only [isBlank, Bool.not_eq_false, Bool.or_eq_true, beq_iff_eq, or_assoc] at hblank
  rcases hblank with rfl | rfl | rfl | rfl <;> cases h

/-- The text begins like a number. -/
def OpensNumber (cs : List Char) : Prop := ∃ c more, cs = c :: more ∧ startsNumber c

theorem OpensNumber.opens {cs : List Char} (h : OpensNumber cs) : Opens cs := by
  obtain ⟨c, more, rfl, hstarts⟩ := h
  refine ⟨c, more, rfl, not_blank_of_startsNumber hstarts, ?_⟩
  rintro rfl
  cases hstarts

theorem OpensNumber.head?_ne {cs : List Char} (h : OpensNumber cs) : cs.head? ≠ some 'n' := by
  obtain ⟨c, more, rfl, hstarts⟩ := h
  rintro ⟨⟩
  cases hstarts

theorem OpensNumber.readNumeric_eq_ok {cs left : List Char} (h : OpensNumber cs)
    {convert : Number → Option α} : readNumeric convert cs = .ok (a, left) ↔
      ∃ n, Number.read cs = .ok (n, left) ∧ convert n = some a := by
  obtain ⟨c, more, rfl, hstarts⟩ := h
  change readFrom startsNumber _ _ = _ ↔ _
  rw [readFrom_cons (not_blank_of_startsNumber hstarts) hstarts, bind_eq_ok]
  constructor
  · rintro ⟨⟨n, left'⟩, hread, hconvert⟩
    dsimp only at hconvert
    split at hconvert
    · next a' heq =>
        obtain ⟨rfl, rfl⟩ := Prod.mk.inj (Except.ok.inj hconvert)
        exact ⟨n, hread, heq⟩
    · cases hconvert
  · rintro ⟨n, hread, hconvert⟩
    refine ⟨(n, left), hread, ?_⟩
    dsimp only
    rw [hconvert]

theorem OpensNumber.append {cs : List Char} (h : OpensNumber cs) (rest : List Char) :
    OpensNumber (cs ++ rest) := by
  obtain ⟨c, more, rfl, hstarts⟩ := h
  exact ⟨c, more ++ rest, rfl, hstarts⟩

theorem opensNumber_toDigits (n : ℕ) : OpensNumber (Nat.toDigits 10 n) := by
  obtain ⟨d, ds, hds⟩ := List.exists_cons_of_ne_nil (Nat.toDigits_ne_nil (b := 10) (n := n))
  refine ⟨d, ds, hds, ?_⟩
  have hdigit : isDigit d := Number.isDigit_of_mem_toDigits (hds ▸ List.mem_cons_self)
  rw [startsNumber, hdigit, Bool.or_true]

theorem toList_toString_ofNat (n : ℕ) : (toString (n : ℤ)).toList = Nat.toDigits 10 n :=
  Nat.toList_repr

theorem toList_toString_negSucc (n : ℕ) :
    (toString (Int.negSucc n)).toList = '-' :: Nat.toDigits 10 (n + 1) := by
  change ("-" ++ Nat.repr (n + 1)).toList = _
  rw [String.toList_append, Nat.toList_repr]
  rfl

theorem opensNumber_toString (n : ℤ) : OpensNumber (toString n).toList := by
  cases n with
  | ofNat n =>
      rw [Int.ofNat_eq_natCast, toList_toString_ofNat]
      exact opensNumber_toDigits n
  | negSucc n =>
      rw [toList_toString_negSucc]
      exact ⟨'-', _, rfl, rfl⟩

theorem readNumeric_toString {lo hi n : ℤ} (hlo : Int64.minValue.toInt ≤ lo)
    (hhi : hi ≤ Number.maxGathered) (hn : lo ≤ n ∧ n ≤ hi) (h : Ends rest) :
    readNumeric (Number.intWithin? lo hi) ((toString n).toList ++ rest) = .ok (n, rest) := by
  rw [((opensNumber_toString n).append rest).readNumeric_eq_ok]
  cases n with
  | ofNat n =>
      rw [Int.ofNat_eq_natCast] at hn ⊢
      rw [toList_toString_ofNat]
      exact ⟨.natural n, Number.read_toDigits (by omega) h, if_pos hn⟩
  | negSucc n =>
      rw [toList_toString_negSucc]
      exact ⟨.negative (n + 1), Number.read_minus_toDigits n.succ_ne_zero (by omega) h, if_pos hn⟩

theorem echoes_integer {lo hi n : ℤ} (hlo : Int64.minValue.toInt ≤ lo)
    (hhi : hi ≤ Number.maxGathered) (hn : lo ≤ n ∧ n ≤ hi) : (integer lo hi).Echoes n [] where
  opens := (opensNumber_toString n).opens
  reads _ _ hrest := readNumeric_toString hlo hhi hn hrest

theorem echoes_natural {max n : ℕ} (hmax : max ≤ Number.maxGathered) (hn : n ≤ max) :
    (natural max).Echoes n [] :=
  (echoes_integer (by decide) (Int.ofNat_le.mpr hmax)
    ⟨Int.natCast_nonneg n, Int.ofNat_le.mpr hn⟩).map rfl (Int.toNat_natCast n)

theorem opensNumber_render (range : Real32.PlainRange) (d : Real32.Decimal) :
    OpensNumber (d.render range) := by
  obtain ⟨c, cs, hdigits, hstarts⟩ := opensNumber_toDigits d.digits
  rw [← Nat.toList_repr] at hdigits
  rw [Real32.Decimal.render, hdigits]
  split
  · split
    · exact ⟨c, _, rfl, hstarts⟩
    · split
      · exact ⟨c, _, rfl, hstarts⟩
      · exact ⟨'0', _, rfl, rfl⟩
  · cases cs with
    | nil => exact ⟨c, _, rfl, hstarts⟩
    | cons d ds => exact ⟨c, _, rfl, hstarts⟩

theorem opensNumber_real (x : Real32) : OpensNumber x.render := by
  rw [Real32.render]
  split
  · exact ⟨'-', _, rfl, rfl⟩
  · exact opensNumber_render _ _

/-- A number is read back as it is or, if it is not finite, as no number at all. -/
theorem echoes_real (x : Real32) : real.Echoes x [x] where
  opens := by
    change Opens (if x.isFinite then _ else _)
    split
    · exact (opensNumber_real x).opens
    · exact ⟨'n', _, rfl, rfl, by decide⟩
  reads := by
    intro hback rest hrest
    change readNumeric (fun n => some n.toReal32) ((if x.isFinite then _ else _) ++ rest) =
      if [x].all Real32.isFinite then _ else _
    rw [List.all_cons, List.all_nil, Bool.and_true]
    split
    · next hfinite =>
        have hopens := opensNumber_real x
        have hrender : readNumeric (fun n => some n.toReal32) x.render = .ok (x, []) :=
          hback x List.mem_cons_self hfinite
        obtain ⟨n, hread, hx⟩ := hopens.readNumeric_eq_ok.mp hrender
        have hlocal := Number.local_read hrest hread
        exact (hopens.append rest).readNumeric_eq_ok.mpr ⟨n, hlocal, hx⟩
    · rfl

theorem echoes_bool (b : Bool) : bool.Echoes b [] where
  opens := by cases b <;> exact ⟨_, _, rfl, rfl, by decide⟩
  reads _ _ _ := by cases b <;> rfl

theorem echoes_text (cs : List Char) : text.Echoes cs [] where
  opens := ⟨'"', _, rfl, rfl, by decide⟩
  reads _ rest _ := by
    change (readChars (cs.flatMap writeChar ++ ['"'] ++ rest) >>= _) = _
    rw [List.append_assoc, List.singleton_append, readChars_write]
    rfl

theorem echoes_none (form : Form α) : form.option.Echoes none [] where
  opens := ⟨'n', _, rfl, rfl, by decide⟩
  reads _ _ _ := rfl

theorem read_option {c : Char} (hblank : isBlank c = false) (hc : c ≠ 'n') (cs : List Char) :
    form.option.read (c :: cs) = form.read (c :: cs) >>= fun (a, rest) => .ok (some a, rest) := by
  simp only [option, skipBlanks_cons hblank]
  split
  · next heq => exact absurd (List.cons.inj heq).1 hc
  · rfl

theorem Echoes.some (h : form.Echoes a xs) (hhead : (form.write a).head? ≠ some 'n') :
    form.option.Echoes (some a) xs where
  opens := h.opens
  reads := by
    intro hback rest hrest
    have hread := h.reads hback rest hrest
    change form.option.read (form.write a ++ rest) = _
    obtain ⟨c, more, hwrite, hblank, -⟩ := h.opens
    rw [hwrite] at hhead hread ⊢
    rw [List.cons_append] at hread ⊢
    rw [read_option hblank (by simpa using hhead), hread]
    exact echo_map rfl

/-! ## Lists -/

theorem readElements_listed {items : List α} {reals : α → List Real32}
    (h : ∀ a ∈ items, form.Echoes a (reals a)) (hback : ReadBack (items.flatMap reals))
    {fuel : ℕ} (hfuel : items.length < fuel) (first : Bool) (rest : List Char) :
    readElements form.read fuel first (listed first (items.map form.write) ++ ']' :: rest) =
      echo (items.flatMap reals) items rest := by
  induction items generalizing fuel first with
  | nil =>
      obtain ⟨fuel, rfl⟩ := Nat.exists_eq_succ_of_ne_zero (Nat.ne_zero_of_lt hfuel)
      rfl
  | cons a items ih =>
      obtain ⟨fuel, rfl⟩ := Nat.exists_eq_succ_of_ne_zero (Nat.ne_zero_of_lt hfuel)
      obtain ⟨ha, hitems⟩ := List.forall_mem_cons.mp h
      have hmore := ih hitems hback.right (Nat.lt_of_succ_lt_succ hfuel) false
      rw [List.map_cons, listed, List.append_assoc, readElements, nextElement_listed ha.opens]
      change form.read _ >>= _ = _
      rw [ha.reads hback.left _ (ends_listed (ends_cons (by decide) _) _)]
      refine echo_bind ?_
      change readElements _ _ _ _ >>= _ = _
      rw [hmore]
      exact echo_map rfl

theorem echoes_list {items : List α} {reals : α → List Real32}
    (h : ∀ a ∈ items, form.Echoes a (reals a)) :
    form.list.Echoes items (items.flatMap reals) where
  opens := ⟨'[', _, rfl, rfl, by decide⟩
  reads := by
    intro hback rest _
    have hfuel := length_le_listed true (items.map form.write)
    change readElements _ ('[' :: separated _ ++ [']'] ++ rest).length _
      (separated _ ++ [']'] ++ rest) = _
    rw [separated_eq_listed, List.append_assoc (listed _ _)]
    refine readElements_listed h hback ?_ true rest
    rw [List.length_map] at hfuel
    simp only [List.length_append, List.length_cons]
    omega

/-- A list of fixed length is read from its end backwards, as `readVector` recurses. -/
theorem readVector_listed {reals : α → List Real32} {n : ℕ} (items : Vector α n)
    (h : ∀ a ∈ items.toList, form.Echoes a (reals a))
    (hback : ReadBack (items.toList.flatMap reals)) (hrest : n ≠ 0 → Ends rest) :
    readVector form.read n (listed true (items.toList.map form.write) ++ rest) =
      echo (items.toList.flatMap reals) items rest := by
  induction n generalizing rest with
  | zero =>
      obtain rfl : items = #v[] := Vector.eq_empty
      rfl
  | succ n ih =>
      obtain ⟨front, last, rfl⟩ : ∃ front last, items = Vector.push front last :=
        Vector.exists_push
      have hlength : (front.toList.map form.write).length = n := by
        rw [List.length_map, Vector.length_toList]
      have hempty : (front.toList.map form.write).isEmpty = (n == 0) := by
        rw [Bool.eq_iff_iff, List.isEmpty_iff_length_eq_zero, hlength, beq_iff_eq]
      rw [Vector.toList_push] at h hback ⊢
      obtain ⟨hfront, hlast⟩ := List.forall_mem_append.mp h
      have hlast := hlast last List.mem_cons_self
      rw [List.flatMap_append, List.flatMap_singleton] at hback ⊢
      rw [List.map_append, listed_append, List.append_assoc, Bool.true_and, hempty, readVector]
      rw [ih front hfront hback.left]
      · refine echo_bind ?_
        change nextElement _ ((_ ++ []) ++ rest) >>= _ = _
        rw [List.append_nil, nextElement_listed hlast.opens]
        change form.read _ >>= _ = _
        rw [hlast.reads hback.right _ (hrest n.succ_ne_zero)]
        exact echo_map rfl
      · intro hn
        rw [beq_false_of_ne hn]
        exact ends_cons (by decide) _

theorem echoes_vector {reals : α → List Real32} {n : ℕ} {items : Vector α n}
    (h : ∀ a ∈ items.toList, form.Echoes a (reals a)) :
    (form.vector n).Echoes items (items.toList.flatMap reals) where
  opens := ⟨'[', _, rfl, rfl, by decide⟩
  reads := by
    intro hback rest _
    change readVector _ _ (separated _ ++ [']'] ++ rest) >>= _ = _
    rw [separated_eq_listed, List.append_assoc, List.singleton_append]
    rw [readVector_listed items h hback fun _ => ends_cons (by decide) _]
    exact echo_map rfl

/-! ## Objects with numbers for names -/

theorem readQuotedNumber_toDigits {n max : ℕ} (hmax : max ≤ Number.maxGathered) (hn : n ≤ max)
    (rest : List Char) :
    readQuotedNumber max (Nat.toDigits 10 n ++ '"' :: rest) = .ok (n, rest) := by
  have hread := Number.read_toDigits (Nat.le_trans hn hmax) (ends_cons (c := '"') (by decide) rest)
  have hwithin : Number.intWithin? 0 max (.natural n) = some (n : ℤ) :=
    if_pos ⟨Int.natCast_nonneg n, Int.ofNat_le.mpr hn⟩
  obtain ⟨d, ds, hds, hstarts⟩ := opensNumber_toDigits n
  have hd : d = '-' ∨ isDigit d := by simpa [startsNumber] using hstarts
  rw [hds, List.cons_append] at hread ⊢
  simp only [readQuotedNumber, if_pos hd, hread]
  rw [ok_bind]
  dsimp only
  rw [hwithin]
  rfl

/-- How an entry of such an object is written. -/
def writeEntry (form : Form α) (entry : ℕ × α) : List Char :=
  '"' :: (Nat.repr entry.1).toList ++ '"' :: ':' :: form.write entry.2

theorem readKeyed_listed {entries : List (ℕ × α)} {reals : α → List Real32} {max : ℕ}
    (hmax : max ≤ Number.maxGathered) (hkeys : ∀ e ∈ entries, e.1 ≤ max)
    (h : ∀ e ∈ entries, form.Echoes e.2 (reals e.2))
    (hback : ReadBack (entries.flatMap fun e => reals e.2))
    {fuel : ℕ} (hfuel : entries.length < fuel) (first : Bool) (rest : List Char) :
    readKeyed max form.read fuel first
        (listed first (entries.map form.writeEntry) ++ '\x7d' :: rest) =
      echo (entries.flatMap fun e => reals e.2) entries rest := by
  induction entries generalizing fuel first with
  | nil =>
      obtain ⟨fuel, rfl⟩ := Nat.exists_eq_succ_of_ne_zero (Nat.ne_zero_of_lt hfuel)
      cases first <;> rfl
  | cons entry entries ih =>
      obtain ⟨fuel, rfl⟩ := Nat.exists_eq_succ_of_ne_zero (Nat.ne_zero_of_lt hfuel)
      obtain ⟨hkey, hkeys⟩ := List.forall_mem_cons.mp hkeys
      obtain ⟨hentry, hentries⟩ := List.forall_mem_cons.mp h
      have hmore := ih hkeys hentries hback.right (Nat.lt_of_succ_lt_succ hfuel) false
      rw [List.map_cons, listed, writeEntry, List.append_assoc, List.cons_append, readKeyed,
        nextMember_listed, Nat.toList_repr, List.append_assoc]
      change readQuotedNumber _ _ >>= _ = _
      rw [List.cons_append, readQuotedNumber_toDigits hmax hkey]
      change form.read (form.write entry.2 ++ _) >>= _ = _
      rw [hentry.reads hback.left _ (ends_listed (ends_cons (by decide) _) _)]
      refine echo_bind ?_
      change readKeyed _ _ _ _ _ >>= _ = _
      rw [hmore]
      exact echo_map rfl

theorem echoes_keyed {entries : List (ℕ × α)} {reals : α → List Real32} {max : ℕ}
    (hmax : max ≤ Number.maxGathered) (hkeys : ∀ e ∈ entries, e.1 ≤ max)
    (h : ∀ e ∈ entries, form.Echoes e.2 (reals e.2)) :
    (form.keyed max).Echoes entries (entries.flatMap fun e => reals e.2) where
  opens := ⟨'\x7b', _, rfl, rfl, by decide⟩
  reads := by
    intro hback rest _
    have hfuel := length_le_listed true (entries.map form.writeEntry)
    change readKeyed _ _
      ('\x7b' :: separated (entries.map form.writeEntry) ++ ['\x7d'] ++ rest).length _
      (separated (entries.map form.writeEntry) ++ ['\x7d'] ++ rest) = _
    rw [separated_eq_listed, List.append_assoc (listed _ _)]
    refine readKeyed_listed hmax hkeys h hback ?_ true rest
    rw [List.length_map] at hfuel
    simp only [List.length_append, List.length_cons]
    omega

end Form
end AppearanceSync.Json
