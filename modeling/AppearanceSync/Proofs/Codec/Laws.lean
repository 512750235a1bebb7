import AppearanceSync.Codec.Basic
import Mathlib.Algebra.Group.Nat.Defs
import Mathlib.Data.List.Basic

/-!
# What codecs read

A codec is lawful for a class of values if it reads exactly what it writes for
values of that class, and leaves whatever follows.  So nothing else is read, no
bytes are read as two values, and no two values of the class are written alike.

Numbers, texts, lists and alternatives are lawful, and so is what is put together
from them.  Lengths are written in eight bytes, which is what limits the class.
-/

namespace AppearanceSync

theorem bind_eq_ok {ε α β : Type} {x : Except ε α} {f : α → Except ε β} {b : β} :
    (x >>= f) = .ok b ↔ ∃ a, x = .ok a ∧ f a = .ok b := by
  cases x with
  | error e =>
      constructor
      · intro h
        cases h
      · rintro ⟨a, h, -⟩
        cases h
  | ok a =>
      constructor
      · intro h
        exact ⟨a, rfl, h⟩
      · rintro ⟨a', h, hf⟩
        obtain rfl := Except.ok.inj h
        exact hf

namespace Codec

variable {α β : Type} {c : Codec α} {d : Codec β} {P P' : α → Prop} {Q : β → Prop}
  {bytes rest : List UInt8} {a b : α}

/-- The codec reads exactly what it writes for the values that have the property. -/
def Lawful (c : Codec α) (P : α → Prop) : Prop :=
  ∀ (a : α) (bytes rest : List UInt8),
    c.decode bytes = .ok (a, rest) ↔ P a ∧ bytes = c.encode a ++ rest

/-- The codec reads exactly what it writes. -/
abbrev Total (c : Codec α) : Prop := c.Lawful fun _ => True

/-- Lengths are counted in eight bytes, so they stay below this; lists and texts that are
held in memory always do. -/
def lengthBound : ℕ := 256 ^ 8

theorem Lawful.decode_encode (h : c.Lawful P) (ha : P a) (rest : List UInt8) :
    c.decode (c.encode a ++ rest) = .ok (a, rest) :=
  (h a _ rest).mpr ⟨ha, rfl⟩

/-- No two values of the class begin the same bytes. -/
theorem Lawful.eq_of_append_eq (h : c.Lawful P) (ha : P a) (hb : P b) {s t : List UInt8}
    (heq : c.encode a ++ s = c.encode b ++ t) : a = b ∧ s = t := by
  have hread := h.decode_encode ha s
  rw [heq, h.decode_encode hb t] at hread
  obtain ⟨rfl, rfl⟩ := Prod.mk.inj (Except.ok.inj hread)
  exact ⟨rfl, rfl⟩

theorem Lawful.eq_of_encode_eq (h : c.Lawful P) (ha : P a) (hb : P b)
    (heq : c.encode a = c.encode b) : a = b :=
  (h.eq_of_append_eq ha hb (congrArg (· ++ []) heq)).1

theorem Lawful.congr (h : c.Lawful P) (hP : ∀ a, P' a ↔ P a) : c.Lawful P' := by
  intro a bytes rest
  rw [hP]
  exact h a bytes rest

/-! ## Putting codecs together -/

theorem decode_map_eq_ok {forth : α → β} {back : β → α} {b : β} :
    (c.map forth back).decode bytes = .ok (b, rest) ↔
      ∃ a, c.decode bytes = .ok (a, rest) ∧ forth a = b := by
  constructor
  · intro h
    obtain ⟨⟨a, r⟩, ha, hb⟩ := bind_eq_ok.mp h
    obtain ⟨rfl, rfl⟩ := Prod.mk.inj (Except.ok.inj hb)
    exact ⟨a, ha, rfl⟩
  · rintro ⟨a, ha, rfl⟩
    exact bind_eq_ok.mpr ⟨(a, rest), ha, rfl⟩

theorem Lawful.map (h : c.Lawful P) {forth : α → β} {back : β → α}
    (hback : ∀ a, back (forth a) = a) (hforth : ∀ b, forth (back b) = b) :
    (c.map forth back).Lawful fun b => P (back b) := by
  intro b bytes rest
  rw [decode_map_eq_ok]
  constructor
  · rintro ⟨a, ha, rfl⟩
    obtain ⟨hP, rfl⟩ := (h a bytes rest).mp ha
    change P (back (forth a)) ∧ _ = c.encode (back (forth a)) ++ rest
    rw [hback]
    exact ⟨hP, rfl⟩
  · rintro ⟨hP, rfl⟩
    exact ⟨back b, h.decode_encode hP rest, hforth b⟩

theorem decode_refine_eq_ok {forth : α → Except DecodeError β} {back : β → α} {b : β} :
    (c.refine forth back).decode bytes = .ok (b, rest) ↔
      ∃ a, c.decode bytes = .ok (a, rest) ∧ forth a = .ok b := by
  constructor
  · intro h
    obtain ⟨⟨a, r⟩, ha, hb⟩ := bind_eq_ok.mp h
    obtain ⟨b', hb', heq⟩ := bind_eq_ok.mp hb
    obtain ⟨rfl, rfl⟩ := Prod.mk.inj (Except.ok.inj heq)
    exact ⟨a, ha, hb'⟩
  · rintro ⟨a, ha, hb⟩
    exact bind_eq_ok.mpr ⟨(a, rest), ha, bind_eq_ok.mpr ⟨b, hb, rfl⟩⟩

theorem Lawful.refine (h : c.Lawful P) {forth : α → Except DecodeError β} {back : β → α}
    (hback : ∀ a b, forth a = .ok b → back b = a) (hforth : ∀ b, forth (back b) = .ok b) :
    (c.refine forth back).Lawful fun b => P (back b) := by
  intro b bytes rest
  rw [decode_refine_eq_ok]
  constructor
  · rintro ⟨a, ha, hb⟩
    obtain ⟨hP, rfl⟩ := (h a bytes rest).mp ha
    change P (back b) ∧ _ = c.encode (back b) ++ rest
    rw [hback a b hb]
    exact ⟨hP, rfl⟩
  · rintro ⟨hP, rfl⟩
    exact ⟨back b, h.decode_encode hP rest, hforth b⟩

theorem decode_pair_eq_ok {p : α × β} :
    (c.pair d).decode bytes = .ok (p, rest) ↔
      ∃ mid, c.decode bytes = .ok (p.1, mid) ∧ d.decode mid = .ok (p.2, rest) := by
  constructor
  · intro h
    obtain ⟨⟨a, mid⟩, ha, hrest⟩ := bind_eq_ok.mp h
    obtain ⟨⟨b, r⟩, hb, heq⟩ := bind_eq_ok.mp hrest
    obtain ⟨rfl, rfl⟩ := Prod.mk.inj (Except.ok.inj heq)
    exact ⟨mid, ha, hb⟩
  · rintro ⟨mid, ha, hb⟩
    exact bind_eq_ok.mpr ⟨(p.1, mid), ha, bind_eq_ok.mpr ⟨(p.2, rest), hb, rfl⟩⟩

theorem Lawful.pair (h : c.Lawful P) (h' : d.Lawful Q) :
    (c.pair d).Lawful fun p => P p.1 ∧ Q p.2 := by
  intro p bytes rest
  rw [decode_pair_eq_ok]
  change _ ↔ _ ∧ bytes = c.encode p.1 ++ d.encode p.2 ++ rest
  constructor
  · rintro ⟨mid, ha, hb⟩
    obtain ⟨hP, rfl⟩ := (h _ _ _).mp ha
    obtain ⟨hQ, rfl⟩ := (h' _ _ _).mp hb
    exact ⟨⟨hP, hQ⟩, (List.append_assoc ..).symm⟩
  · rintro ⟨⟨hP, hQ⟩, rfl⟩
    rw [List.append_assoc]
    exact ⟨_, h.decode_encode hP _, h'.decode_encode hQ _⟩

theorem Total.pair (h : c.Total) (h' : d.Total) : (c.pair d).Total :=
  (Lawful.pair h h').congr fun _ => by simp

/-! ## Numbers -/

theorem readLittleEndian_eq_ok {width n : ℕ} :
    readLittleEndian width bytes = .ok (n, rest) ↔
      n < 256 ^ width ∧ bytes = littleEndian width n ++ rest := by
  induction width generalizing bytes n with
  | zero =>
      rw [readLittleEndian, littleEndian, List.nil_append, Nat.pow_zero, Nat.lt_one_iff]
      constructor
      · intro h
        obtain ⟨rfl, rfl⟩ := Prod.mk.inj (Except.ok.inj h)
        exact ⟨rfl, rfl⟩
      · rintro ⟨rfl, rfl⟩
        rfl
  | succ width ih =>
      cases bytes with
      | nil =>
          constructor
          · intro h
            cases h
          · rintro ⟨-, h⟩
            cases h
      | cons b bytes =>
          constructor
          · intro h
            obtain ⟨⟨m, r⟩, hm, heq⟩ := bind_eq_ok.mp h
            obtain ⟨rfl, rfl⟩ := Prod.mk.inj (Except.ok.inj heq)
            obtain ⟨hlt, rfl⟩ := ih.mp hm
            have hb := b.toNat_lt
            have hlow : UInt8.ofNat (b.toNat + 256 * m) = b := by
              apply UInt8.toNat_inj.mp
              rw [UInt8.toNat_ofNat']
              omega
            have hhigh : (b.toNat + 256 * m) / 256 = m := by omega
            rw [littleEndian, hlow, hhigh]
            refine ⟨?_, rfl⟩
            rw [Nat.pow_succ]
            omega
          · rintro ⟨hlt, heq⟩
            obtain ⟨rfl, rfl⟩ := List.cons.inj heq
            have hhigh : n / 256 < 256 ^ width := by
              rw [Nat.pow_succ] at hlt
              omega
            refine bind_eq_ok.mpr ⟨(n / 256, rest), ih.mpr ⟨hhigh, rfl⟩, ?_⟩
            have hn : (UInt8.ofNat n).toNat + 256 * (n / 256) = n := by
              rw [UInt8.toNat_ofNat']
              omega
            change Except.ok ((UInt8.ofNat n).toNat + 256 * (n / 256), rest) = _
            rw [hn]

theorem length_littleEndian (width n : ℕ) : (littleEndian width n).length = width := by
  induction width generalizing n with
  | zero => rfl
  | succ width ih => rw [littleEndian, List.length_cons, ih]

theorem lawful_word (width : ℕ) : (word width).Lawful fun n => n < 256 ^ width :=
  fun _ _ _ => readLittleEndian_eq_ok

/-- A type of numbers below `256 ^ width` is read as it is written. -/
theorem total_of_word {width : ℕ} {forth : ℕ → β} {back : β → ℕ}
    (hbound : ∀ b, back b < 256 ^ width) (hback : ∀ n < 256 ^ width, back (forth n) = n)
    (hforth : ∀ b, forth (back b) = b) : ((word width).map forth back).Total := by
  intro b bytes rest
  rw [decode_map_eq_ok]
  constructor
  · rintro ⟨n, hn, rfl⟩
    obtain ⟨hlt, rfl⟩ := (lawful_word width n bytes rest).mp hn
    refine ⟨trivial, ?_⟩
    change _ = littleEndian width (back (forth n)) ++ rest
    rw [hback n hlt]
    rfl
  · rintro ⟨-, rfl⟩
    exact ⟨back b, (lawful_word width).decode_encode (hbound b) rest, hforth b⟩

theorem total_u8 : u8.Total :=
  total_of_word UInt8.toNat_lt (fun _ h => UInt8.toNat_ofNat_of_lt h) fun _ => UInt8.ofNat_toNat

theorem total_u16 : u16.Total :=
  total_of_word UInt16.toNat_lt (fun _ h => UInt16.toNat_ofNat_of_lt h) fun _ => UInt16.ofNat_toNat

theorem total_u32 : u32.Total :=
  total_of_word UInt32.toNat_lt (fun _ h => UInt32.toNat_ofNat_of_lt h) fun _ => UInt32.ofNat_toNat

theorem total_u64 : u64.Total :=
  total_of_word UInt64.toNat_lt (fun _ h => UInt64.toNat_ofNat_of_lt h) fun _ => UInt64.ofNat_toNat

theorem total_i16 : i16.Total :=
  total_u16.map UInt16.toUInt16_toInt16 Int16.toInt16_toUInt16

theorem total_i32 : i32.Total :=
  total_u32.map UInt32.toUInt32_toInt32 Int32.toInt32_toUInt32

theorem total_bool : bool.Total := by
  refine total_u8.refine ?_ ?_
  · intro byte b h
    split at h
    · next hzero =>
        obtain rfl := Except.ok.inj h
        exact hzero.symm
    · split at h
      · next hone =>
          obtain rfl := Except.ok.inj h
          exact hone.symm
      · cases h
  · intro b
    cases b <;> rfl

/-! ## Options, lists and texts -/

theorem Lawful.option (h : c.Lawful P) : c.option.Lawful fun o => ∀ a ∈ o, P a := by
  intro o bytes rest
  cases bytes with
  | nil =>
      constructor
      · intro ho
        cases ho
      · rintro ⟨-, ho⟩
        cases o <;> cases ho
  | cons tag bytes =>
      constructor
      · intro ho
        simp only [Codec.option] at ho
        split at ho
        · next hzero =>
            obtain ⟨rfl, rfl⟩ := Prod.mk.inj (Except.ok.inj ho)
            exact ⟨by simp, by rw [hzero]; rfl⟩
        · split at ho
          · next hone =>
              obtain ⟨⟨a, r⟩, ha, heq⟩ := bind_eq_ok.mp ho
              obtain ⟨rfl, rfl⟩ := Prod.mk.inj (Except.ok.inj heq)
              obtain ⟨hP, rfl⟩ := (h _ _ _).mp ha
              exact ⟨by simpa using hP, by rw [hone]; rfl⟩
          · cases ho
      · rintro ⟨hP, ho⟩
        cases o with
        | none =>
            obtain ⟨rfl, rfl⟩ := List.cons.inj ho
            rfl
        | some a =>
            obtain ⟨rfl, rfl⟩ := List.cons.inj ho
            exact bind_eq_ok.mpr ⟨(a, rest), h.decode_encode (hP a rfl) rest, rfl⟩

theorem Total.option (h : c.Total) : c.option.Total :=
  (Lawful.option h).congr fun _ => by simp

theorem Lawful.decodeMany_eq_ok (h : c.Lawful P) {n : ℕ} {as : List α} :
    c.decodeMany n bytes = .ok (as, rest) ↔
      as.length = n ∧ (∀ a ∈ as, P a) ∧ bytes = as.flatMap c.encode ++ rest := by
  induction n generalizing bytes as with
  | zero =>
      rw [decodeMany, List.length_eq_zero_iff]
      constructor
      · intro has
        obtain ⟨rfl, rfl⟩ := Prod.mk.inj (Except.ok.inj has)
        exact ⟨rfl, by simp, rfl⟩
      · rintro ⟨rfl, -, rfl⟩
        rfl
  | succ n ih =>
      constructor
      · intro has
        obtain ⟨⟨a, mid⟩, ha, hmore⟩ := bind_eq_ok.mp has
        obtain ⟨⟨as', r⟩, has', heq⟩ := bind_eq_ok.mp hmore
        obtain ⟨rfl, rfl⟩ := Prod.mk.inj (Except.ok.inj heq)
        obtain ⟨hP, rfl⟩ := (h _ _ _).mp ha
        obtain ⟨rfl, hall, rfl⟩ := ih.mp has'
        refine ⟨rfl, List.forall_mem_cons.mpr ⟨hP, hall⟩, ?_⟩
        rw [List.flatMap_cons, List.append_assoc]
      · rintro ⟨hlength, hall, rfl⟩
        cases as with
        | nil => cases hlength
        | cons a as =>
            obtain ⟨hP, hall⟩ := List.forall_mem_cons.mp hall
            rw [List.flatMap_cons, List.append_assoc]
            refine bind_eq_ok.mpr ⟨_, h.decode_encode hP _, bind_eq_ok.mpr ⟨(as, rest), ?_, rfl⟩⟩
            exact ih.mpr ⟨Nat.succ.inj hlength, hall, rfl⟩

theorem Lawful.list (h : c.Lawful P) :
    c.list.Lawful fun as => as.length < lengthBound ∧ ∀ a ∈ as, P a := by
  intro as bytes rest
  change _ ↔ _ ∧ bytes = littleEndian 8 as.length ++ as.flatMap c.encode ++ rest
  constructor
  · intro has
    obtain ⟨⟨n, mid⟩, hn, hmore⟩ := bind_eq_ok.mp has
    obtain ⟨hlt, rfl⟩ := readLittleEndian_eq_ok.mp hn
    obtain ⟨rfl, hall, rfl⟩ := h.decodeMany_eq_ok.mp hmore
    exact ⟨⟨hlt, hall⟩, (List.append_assoc ..).symm⟩
  · rintro ⟨⟨hlt, hall⟩, rfl⟩
    rw [List.append_assoc]
    refine bind_eq_ok.mpr ⟨(as.length, _), readLittleEndian_eq_ok.mpr ⟨hlt, rfl⟩, ?_⟩
    exact h.decodeMany_eq_ok.mpr ⟨rfl, hall, rfl⟩

theorem Lawful.vector (h : c.Lawful P) (n : ℕ) :
    (c.vector n).Lawful fun as => ∀ a ∈ as.toList, P a := by
  intro as bytes rest
  change c.decodeVector n bytes = _ ↔ _ ∧ bytes = as.toList.flatMap c.encode ++ rest
  induction n generalizing bytes rest with
  | zero =>
      obtain rfl : as = #v[] := Vector.eq_empty
      change Except.ok (#v[], bytes) = _ ↔ _
      constructor
      · intro has
        obtain ⟨-, rfl⟩ := Prod.mk.inj (Except.ok.inj has)
        exact ⟨by simp, rfl⟩
      · rintro ⟨-, rfl⟩
        rfl
  | succ n ih =>
      constructor
      · intro has
        obtain ⟨⟨as', mid⟩, has', hmore⟩ := bind_eq_ok.mp has
        obtain ⟨⟨a, r⟩, ha, heq⟩ := bind_eq_ok.mp hmore
        obtain ⟨rfl, rfl⟩ := Prod.mk.inj (Except.ok.inj heq)
        obtain ⟨hall, rfl⟩ := (ih as' _ _).mp has'
        obtain ⟨hP, rfl⟩ := (h _ _ _).mp ha
        refine ⟨?_, ?_⟩
        · intro b hb
          rw [Vector.toList_push] at hb
          rcases List.mem_append.mp hb with hb | hb
          · exact hall b hb
          · rwa [List.mem_singleton.mp hb]
        · rw [Vector.toList_push, List.flatMap_append, List.flatMap_singleton, List.append_assoc]
      · rintro ⟨hall, rfl⟩
        -- the reader pushes each value at the end, so the last one is split off
        obtain ⟨as', a, rfl⟩ : ∃ (as' : Vector α n) (a : α), as = as'.push a :=
          ⟨as.pop, as.back, (Vector.push_pop_back as).symm⟩
        rw [Vector.toList_push, List.flatMap_append, List.flatMap_singleton, List.append_assoc]
        refine bind_eq_ok.mpr ⟨(as', c.encode a ++ rest), ?_, bind_eq_ok.mpr ⟨(a, rest), ?_, rfl⟩⟩
        · refine (ih as' _ _).mpr ⟨fun b hb => hall b ?_, rfl⟩
          rw [Vector.toList_push]
          exact List.mem_append_left _ hb
        · exact h.decode_encode (hall a (by simp)) rest

theorem Total.vector (h : c.Total) (n : ℕ) : (c.vector n).Total :=
  (Lawful.vector h n).congr fun _ => by simp

theorem ofUtf8_eq_ok {s : String} : Text.ofUtf8 bytes = .ok s ↔ bytes = Text.toUtf8 s := by
  rw [Text.ofUtf8, Text.toUtf8]
  constructor
  · intro h
    split at h
    · next text hsome =>
        obtain rfl := Except.ok.inj h
        rw [String.fromUTF8?] at hsome
        split at hsome
        · obtain rfl := Option.some.inj hsome
          rfl
        · cases hsome
    · cases h
  · rintro rfl
    have hsome : String.fromUTF8? ⟨s.toUTF8.data.toList.toArray⟩ = some s := dif_pos s.isValidUTF8
    rw [hsome]

theorem lawful_text : text.Lawful fun s => (Text.toUtf8 s).length < lengthBound := by
  intro s bytes rest
  change _ ↔ _ ∧ bytes = littleEndian 8 (Text.toUtf8 s).length ++ Text.toUtf8 s ++ rest
  constructor
  · intro hs
    obtain ⟨⟨n, mid⟩, hn, hmore⟩ := bind_eq_ok.mp hs
    obtain ⟨hlt, rfl⟩ := readLittleEndian_eq_ok.mp hn
    simp only at hmore
    split at hmore
    · next hle =>
        split at hmore
        · next text htext =>
            obtain ⟨rfl, rfl⟩ := Prod.mk.inj (Except.ok.inj hmore)
            have htake := ofUtf8_eq_ok.mp htext
            have hlength : (Text.toUtf8 text).length = n := by
              rw [← htake, List.length_take_of_le hle]
            refine ⟨?_, ?_⟩
            · change (Text.toUtf8 text).length < lengthBound
              rwa [hlength]
            · rw [hlength, ← htake, List.append_assoc, List.take_append_drop]
        · cases hmore
    · cases hmore
  · rintro ⟨hlt, rfl⟩
    rw [List.append_assoc]
    refine bind_eq_ok.mpr ⟨(_, _), readLittleEndian_eq_ok.mpr ⟨hlt, rfl⟩, ?_⟩
    have hle : (Text.toUtf8 s).length ≤ (Text.toUtf8 s ++ rest).length := by simp
    simp only [if_pos hle, List.take_left', List.drop_left', ofUtf8_eq_ok.mpr rfl]

/-! ## Alternatives -/

theorem decode_tagged_eq_ok {index : α → ℕ} {body : α → List UInt8} {arms : List (ByteReader α)} :
    (tagged index body arms).decode bytes = .ok (a, rest) ↔
      ∃ i mid arm, i < 256 ^ 4 ∧ bytes = littleEndian 4 i ++ mid ∧ arms[i]? = some arm ∧
        arm mid = .ok (a, rest) := by
  constructor
  · intro h
    obtain ⟨⟨i, mid⟩, hi, hmore⟩ := bind_eq_ok.mp h
    obtain ⟨hlt, heq⟩ := readLittleEndian_eq_ok.mp hi
    simp only at hmore
    split at hmore
    · next arm harm => exact ⟨i, mid, arm, hlt, heq, harm, hmore⟩
    · cases hmore
  · rintro ⟨i, mid, arm, hlt, heq, harm, hread⟩
    refine bind_eq_ok.mpr ⟨(i, mid), readLittleEndian_eq_ok.mpr ⟨hlt, heq⟩, ?_⟩
    simp only [harm, hread]

/-- A choice is lawful if every alternative is read by the arm of its number, and every
arm reads only what is written with its number. -/
theorem Lawful.tagged {index : α → ℕ} {body : α → List UInt8} {arms : List (ByteReader α)}
    (hcount : arms.length ≤ 256 ^ 4)
    (hread : ∀ a rest, P a →
      ∃ arm, arms[index a]? = some arm ∧ arm (body a ++ rest) = .ok (a, rest))
    (hexact : ∀ i arm, arms[i]? = some arm → ∀ a bytes rest, arm bytes = .ok (a, rest) →
      P a ∧ index a = i ∧ bytes = body a ++ rest) :
    (tagged index body arms).Lawful P := by
  intro a bytes rest
  rw [decode_tagged_eq_ok]
  change _ ↔ _ ∧ bytes = littleEndian 4 (index a) ++ body a ++ rest
  constructor
  · rintro ⟨i, mid, arm, -, rfl, harm, ha⟩
    obtain ⟨hP, rfl, rfl⟩ := hexact i arm harm a mid rest ha
    exact ⟨hP, (List.append_assoc ..).symm⟩
  · rintro ⟨hP, rfl⟩
    obtain ⟨arm, harm, ha⟩ := hread a rest hP
    obtain ⟨hlt, -⟩ := List.getElem?_eq_some_iff.mp harm
    exact ⟨index a, body a ++ rest, arm, Nat.lt_of_lt_of_le hlt hcount, List.append_assoc ..,
      harm, ha⟩

end Codec
end AppearanceSync
