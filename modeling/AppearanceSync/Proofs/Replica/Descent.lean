import AppearanceSync.Proofs.Replica.Slots
import Mathlib.Data.Finset.Card
import Mathlib.Logic.Relation

/-!
# Ways down the arena

The walks through an arena stop after as many levels as there are instances.  That
is enough where every way down leads to instances of smaller weight: such a way
cannot come back, so it visits no instance twice.
-/

namespace AppearanceSync
namespace Arena

/-- One instance stands in a slot of another. -/
def Holds (a : Arena) (n m : Serial) : Prop := ∃ k id, a.slotAt? n k = some (id, some m)

variable {a : Arena} {good : Serial → Prop} {weight : Serial → ℕ} {n m : Serial}

/-- Every way down leads from good instances to good instances of smaller weight. -/
def Descends (a : Arena) (good : Serial → Prop) (weight : Serial → ℕ) : Prop :=
  ∀ n, good n → ∀ m, a.Holds n m → good m ∧ weight m < weight n

theorem Descends.of_transGen (h : a.Descends good weight) (hn : good n)
    (hway : Relation.TransGen a.Holds n m) : good m ∧ weight m < weight n := by
  induction hway with
  | single hholds => exact h n hn _ hholds
  | tail _ hholds ih =>
      obtain ⟨hgood, hlt⟩ := h _ ih.1 _ hholds
      exact ⟨hgood, hlt.trans ih.2⟩

/-- A good instance does not contain itself. -/
theorem Descends.not_transGen (h : a.Descends good weight) (hn : good n) :
    ¬Relation.TransGen a.Holds n n := by
  intro hway
  exact Nat.lt_irrefl _ (h.of_transGen hn hway).2

/-- The instances of smaller weight. -/
def below (a : Arena) (weight : Serial → ℕ) (n : Serial) : Finset ℕ :=
  (Finset.range a.next).filter fun m => weight m < weight n

theorem card_below_lt (hn : n < a.next) : (a.below weight n).card < a.next := by
  have hsub : a.below weight n ⊂ Finset.range a.next := by
    refine Finset.filter_ssubset.mpr ⟨n, Finset.mem_range.mpr hn, ?_⟩
    exact Nat.lt_irrefl _
  simpa using Finset.card_lt_card hsub

theorem card_below_lt_of_weight_lt (hm : m < a.next) (hlt : weight m < weight n) :
    (a.below weight m).card < (a.below weight n).card := by
  refine Finset.card_lt_card (Finset.ssubset_iff_subset_ne.mpr ⟨?_, ?_⟩)
  · intro p hp
    obtain ⟨hp, hlower⟩ := Finset.mem_filter.mp hp
    exact Finset.mem_filter.mpr ⟨hp, hlower.trans hlt⟩
  · intro heq
    have hmem : m ∈ a.below weight n :=
      Finset.mem_filter.mpr ⟨Finset.mem_range.mpr hm, hlt⟩
    rw [← heq] at hmem
    exact Nat.lt_irrefl _ (Finset.mem_filter.mp hmem).2

/-- What holds with one level more than it holds with below holds with as many levels
as there are instances. -/
theorem Descends.levels_suffice {F : ℕ → Serial → Prop} (h : a.Descends good weight)
    (hin : ∀ n, good n → n < a.next)
    (hstep : ∀ l n, good n → (∀ m, a.Holds n m → F l m) → F (l + 1) n) (hn : good n) :
    F a.next n := by
  have key : ∀ l n, good n → (a.below weight n).card < l → F l n := by
    intro l
    induction l with
    | zero => intro n _ hcard; exact absurd hcard (Nat.not_lt_zero _)
    | succ l ih =>
        intro n hn hcard
        refine hstep l n hn fun m hholds => ?_
        obtain ⟨hm, hlt⟩ := h n hn m hholds
        have hless := card_below_lt_of_weight_lt (hin m hm) hlt
        exact ih m hm (by omega)
  exact key a.next n hn (card_below_lt (hin n hn))

/-- Where no slot is empty, the walk finds that everything has arrived. -/
theorem Descends.isResolved (h : a.Descends good weight)
    (hfull : ∀ n, good n → ∃ i, a.get? n = some i ∧ ∀ s ∈ i.slots, s.2.isSome) (hn : good n) :
    a.isResolved n = true := by
  have hin (n : Serial) (hn : good n) : n < a.next := by
    obtain ⟨i, hi, -⟩ := hfull n hn
    exact lt_next_of_get? hi
  refine h.levels_suffice (F := fun l n => a.resolvedWithin l n = true) hin ?_ hn
  intro l n hn hlower
  obtain ⟨i, hi, hslots⟩ := hfull n hn
  rw [resolvedWithin, hi, Option.any_some, List.all_eq_true]
  intro s hs
  obtain ⟨k, hk⟩ := List.mem_iff_getElem?.mp hs
  obtain ⟨m, hm⟩ := Option.isSome_iff_exists.mp (hslots s hs)
  have hholds : a.Holds n m := by
    refine ⟨k, s.1, ?_⟩
    rw [slotAt?, hi, Option.bind_some, hk, ← hm]
  rw [hm, Option.any_some]
  exact hlower m hholds

end Arena
end AppearanceSync
