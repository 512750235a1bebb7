import AppearanceSync.Hash
import Mathlib.Data.Int.ModEq
import Mathlib.Data.List.Basic
import Mathlib.Tactic.LinearCombination

/-!
# Windows of four bytes

Two runs of bytes that agree but for a window of four bytes never have one hash.  The
argument follows the difference of the two states.  A byte that is mixed in changes the
low eight bits of a state alone, so it changes the difference by a small number, and the
multiplication multiplies the difference by `2 ^ 40 + 435`.  Four bytes after the states
part, the difference is a polynomial in this number with small coefficients, of which the
first is not zero, and no such polynomial is a multiple of `2 ^ 64`.

Outside of the window nothing is lost, since the multiplier is odd.
-/

namespace AppearanceSync.Hash

variable {x y s : UInt64} {b c : UInt8} {d : ℤ}

/-! ## Steps that lose nothing -/

/-- The inverse of the multiplier modulo `2 ^ 64`. -/
def unmultiplier : UInt64 := 0xce965057aff6957b

theorem mul_multiplier_injective (h : x * multiplier = y * multiplier) : x = y := by
  have hinverse : multiplier * unmultiplier = 1 := by decide
  have h' := congrArg (· * unmultiplier) h
  simpa only [UInt64.mul_assoc, hinverse, UInt64.mul_one] using h'

theorem feed_injective {bytes : List UInt8} (h : feed x bytes = feed y bytes) : x = y := by
  induction bytes generalizing x y with
  | nil => exact h
  | cons b bytes ih =>
      have hmixed := mul_multiplier_injective (ih h)
      exact (UInt64.xor_left_inj b.toUInt64).mp hmixed

/-! ## The difference of two states -/

/-- A byte that is mixed in leaves the higher bits alone. -/
theorem toNat_mix_div (x : UInt64) (b : UInt8) :
    (x ^^^ b.toUInt64).toNat / 256 = x.toNat / 256 := by
  have hbyte : b.toNat >>> 8 = 0 := by
    rw [Nat.shiftRight_eq_div_pow]
    exact Nat.div_eq_of_lt b.toNat_lt
  have hshift : (x ^^^ b.toUInt64).toNat >>> 8 = x.toNat >>> 8 := by
    rw [UInt64.toNat_xor, UInt8.toNat_toUInt64, Nat.shiftRight_xor_distrib, hbyte, Nat.xor_zero]
  simpa only [Nat.shiftRight_eq_div_pow] using hshift

/-- The second state is the first plus `d`, modulo `2 ^ 64`. -/
def Differ (x y : UInt64) (d : ℤ) : Prop := (y.toNat : ℤ) - x.toNat ≡ d [ZMOD 2 ^ 64]

theorem Differ.mul_multiplier (h : Differ x y d) :
    Differ (x * multiplier) (y * multiplier) (d * (2 ^ 40 + 435)) := by
  have hvalue : (multiplier.toNat : ℤ) = 2 ^ 40 + 435 := by decide
  have hmul (z : UInt64) :
      ((z * multiplier).toNat : ℤ) ≡ z.toNat * (2 ^ 40 + 435) [ZMOD 2 ^ 64] := by
    rw [UInt64.toNat_mul, Int.natCast_mod, Int.natCast_mul, hvalue]
    exact Int.mod_modEq _ _
  have hsub := (hmul y).sub (hmul x)
  rw [← sub_mul] at hsub
  exact hsub.trans (h.mul_right _)

/-- Two bytes that are mixed in change the difference by a small number. -/
theorem Differ.mix (h : Differ x y d) (b c : UInt8) :
    ∃ e, -510 ≤ e ∧ e ≤ 510 ∧ Differ (x ^^^ b.toUInt64) (y ^^^ c.toUInt64) (d + e) := by
  have hx := toNat_mix_div x b
  have hy := toNat_mix_div y c
  generalize hx' : (x ^^^ b.toUInt64).toNat = x' at hx
  generalize hy' : (y ^^^ c.toUInt64).toNat = y' at hy
  refine ⟨(y' - y.toNat) - (x' - x.toNat), by omega, by omega, ?_⟩
  have hsplit : (y' : ℤ) - x' = (y.toNat - x.toNat) + ((y' - y.toNat) - (x' - x.toNat)) := by
    omega
  rw [Differ, hx', hy', hsplit]
  exact Int.ModEq.add_right _ h

theorem Differ.dvd_of_eq (h : Differ x y d) (heq : x * multiplier = y * multiplier) :
    (2 ^ 64 : ℤ) ∣ d := by
  rw [Differ, mul_multiplier_injective heq, sub_self] at h
  exact Int.modEq_zero_iff_dvd.mp h.symm

/-- From one state, different bytes lead to states with a small difference other than zero. -/
theorem differ_of_ne (x : UInt64) (h : b ≠ c) :
    ∃ e, e ≠ 0 ∧ -255 ≤ e ∧ e ≤ 255 ∧ Differ (x ^^^ b.toUInt64) (x ^^^ c.toUInt64) e := by
  have hb := toNat_mix_div x b
  have hc := toNat_mix_div x c
  have hne : (x ^^^ b.toUInt64).toNat ≠ (x ^^^ c.toUInt64).toNat := by
    intro heq
    have hbytes := (UInt64.xor_right_inj x).mp (UInt64.toNat_inj.mp heq)
    exact h (UInt8.toUInt64_inj.mp hbytes)
  exact ⟨(x ^^^ c.toUInt64).toNat - (x ^^^ b.toUInt64).toNat, by omega, by omega, by omega,
    Int.ModEq.refl _⟩

/-- What four bytes can make of a difference is not a multiple of `2 ^ 64`.  Modulo it, the
powers of `2 ^ 40 + 435` leave `2 ^ 40 * high + low`, where `low` is too small to be a
multiple of `2 ^ 40` other than zero. -/
theorem not_dvd_of_small {d e f g : ℤ} (hd : d ≠ 0) (hdl : -255 ≤ d) (hdu : d ≤ 255)
    (hel : -510 ≤ e) (heu : e ≤ 510) (hfl : -510 ≤ f) (hfu : f ≤ 510)
    (hgl : -510 ≤ g) (hgu : g ≤ 510) :
    ¬(2 ^ 64 : ℤ) ∣
      ((d * (2 ^ 40 + 435) + e) * (2 ^ 40 + 435) + f) * (2 ^ 40 + 435) + g := by
  rintro ⟨k, hk⟩
  have hparts : 2 ^ 40 * (567675 * d + 870 * e + f) +
      (82312875 * d + 189225 * e + 435 * f + g) =
        2 ^ 64 * (k - 2 ^ 56 * d - 1305 * 2 ^ 16 * d - 2 ^ 16 * e) := by
    linear_combination hk
  generalize k - 2 ^ 56 * d - 1305 * 2 ^ 16 * d - 2 ^ 16 * e = m at hparts
  -- each part is too small to be what the multiple of `2 ^ 64` leaves for it but zero
  have hlow : 82312875 * d + 189225 * e + 435 * f + g = 0 := by omega
  have hone : d = 1 ∨ d = -1 := by omega
  have hhigh : 567675 * d + 870 * e + f = 0 := by omega
  omega

/-! ## Windows -/

theorem feed_ne_of_head_ne {u v : List UInt8} (h : b ≠ c) (hu : u.length = 3)
    (hv : v.length = 3) : feed s (b :: u) ≠ feed s (c :: v) := by
  intro heq
  obtain ⟨u₁, u₂, u₃, rfl⟩ := List.length_eq_three.mp hu
  obtain ⟨v₁, v₂, v₃, rfl⟩ := List.length_eq_three.mp hv
  obtain ⟨d, hd, hdl, hdu, h₀⟩ := differ_of_ne s h
  obtain ⟨e, hel, heu, h₁⟩ := h₀.mul_multiplier.mix u₁ v₁
  obtain ⟨f, hfl, hfu, h₂⟩ := h₁.mul_multiplier.mix u₂ v₂
  obtain ⟨g, hgl, hgu, h₃⟩ := h₂.mul_multiplier.mix u₃ v₃
  exact not_dvd_of_small hd hdl hdu hel heu hfl hfu hgl hgu (h₃.dvd_of_eq heq)

/-- Runs of one length, at most four, that differ are told apart. -/
theorem feed_ne_of_short {u v : List UInt8} (hne : u ≠ v) (hlength : u.length = v.length)
    (hshort : u.length ≤ 4) : feed s u ≠ feed s v := by
  -- what the runs have in common at the front leads to one state, from which they part
  induction u generalizing s v with
  | nil =>
      obtain rfl := List.length_eq_zero_iff.mp hlength.symm
      exact absurd rfl hne
  | cons b u ih =>
      obtain ⟨c, v, rfl⟩ := List.exists_cons_of_length_eq_add_one hlength.symm
      simp only [List.length_cons, Nat.add_right_cancel_iff] at hlength hshort
      by_cases hbc : b = c
      · subst hbc
        exact ih (fun huv => hne (congrArg _ huv)) hlength (Nat.le_of_succ_le hshort)
      · -- zeros after both runs do not change whether they are told apart
        intro heq
        have hpad := congrArg (feed · (List.replicate (3 - u.length) 0)) heq
        simp only [← feed_append, List.cons_append] at hpad
        refine feed_ne_of_head_ne hbc ?_ ?_ hpad
        · rw [List.length_append, List.length_replicate]
          omega
        · rw [List.length_append, List.length_replicate]
          omega

/-- Two runs of bytes that differ, but only in a window of at most four bytes. -/
def WindowApart (p q : List UInt8) : Prop :=
  ∃ before u v after, p = before ++ (u ++ after) ∧ q = before ++ (v ++ after) ∧
    u ≠ v ∧ u.length = v.length ∧ u.length ≤ 4

variable {p q : List UInt8}

theorem WindowApart.of_short (hne : p ≠ q) (hlength : p.length = q.length)
    (hshort : p.length ≤ 4) : WindowApart p q :=
  ⟨[], p, q, [], by simp, by simp, hne, hlength, hshort⟩

theorem WindowApart.append_left (h : WindowApart p q) (front : List UInt8) :
    WindowApart (front ++ p) (front ++ q) := by
  obtain ⟨before, u, v, after, rfl, rfl, hwindow⟩ := h
  exact ⟨front ++ before, u, v, after, by simp, by simp, hwindow⟩

theorem WindowApart.append_right (h : WindowApart p q) (back : List UInt8) :
    WindowApart (p ++ back) (q ++ back) := by
  obtain ⟨before, u, v, after, rfl, rfl, hwindow⟩ := h
  exact ⟨before, u, v, after ++ back, by simp, by simp, hwindow⟩

/-- Bytes that differ in a single window have different hashes. -/
theorem WindowApart.ofBytes_ne (h : WindowApart p q) : ofBytes p ≠ ofBytes q := by
  obtain ⟨before, u, v, after, rfl, rfl, hne, hlength, hshort⟩ := h
  intro heq
  rw [ofBytes, ofBytes, feed_append, feed_append, feed_append, feed_append] at heq
  exact feed_ne_of_short hne hlength hshort (feed_injective heq)

end AppearanceSync.Hash
