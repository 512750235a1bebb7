import Mathlib.Data.List.Forall2

/-!
# Lists that correspond entry by entry

Reading a list entry by entry fails or gives a list that corresponds to it.  The
lemmas here are about lists alone; they serve wherever slots, ids and trees are
compared in order.
-/

namespace AppearanceSync

variable {α β : Type} {R S : α → β → Prop} {xs : List α} {ys zs : List β}

theorem mapM_congr {ε : Type} {f g : α → Except ε β} (h : ∀ x ∈ xs, f x = g x) :
    xs.mapM f = xs.mapM g := by
  induction xs with
  | nil => rfl
  | cons x xs ih =>
      rw [List.mapM_cons, List.mapM_cons, h x (by simp), ih fun y hy => h y (by simp [hy])]

theorem mapM_eq_ok_iff {ε : Type} {f : α → Except ε β} :
    xs.mapM f = .ok ys ↔ List.Forall₂ (fun x y => f x = .ok y) xs ys := by
  induction xs generalizing ys with
  | nil =>
      rw [List.mapM_nil, List.forall₂_nil_left_iff]
      constructor
      · rintro h
        exact (Except.ok.inj h).symm
      · rintro rfl
        rfl
  | cons x xs ih =>
      rw [List.mapM_cons, List.forall₂_cons_left_iff]
      cases hx : f x with
      | error e =>
          constructor
          · intro h
            cases h
          · rintro ⟨y, zs, hy, -, -⟩
            cases hy
      | ok y =>
          cases hxs : xs.mapM f with
          | error e =>
              constructor
              · intro h
                cases h
              · rintro ⟨z, zs, -, hzs, -⟩
                rw [← ih, hxs] at hzs
                cases hzs
          | ok zs =>
              constructor
              · intro h
                exact ⟨y, zs, rfl, ih.mp hxs, (Except.ok.inj h).symm⟩
              · rintro ⟨y', zs', hy, hzs, rfl⟩
                rw [← ih, hxs] at hzs
                obtain rfl := Except.ok.inj hy
                obtain rfl := Except.ok.inj hzs
                rfl

theorem exists_mem_of_forall₂ {x : α} (h : List.Forall₂ R xs ys) (hx : x ∈ xs) :
    ∃ y ∈ ys, R x y := by
  induction h with
  | nil => exact absurd hx List.not_mem_nil
  | @cons x' y xs ys hxy _ ih =>
      rcases List.mem_cons.mp hx with rfl | hx
      · exact ⟨y, List.mem_cons_self, hxy⟩
      · obtain ⟨z, hz, hxz⟩ := ih hx
        exact ⟨z, List.mem_cons_of_mem y hz, hxz⟩

theorem exists_of_mem_forall₂ {x : α} (h : List.Forall₂ R xs ys) (hx : x ∈ xs) : ∃ y, R x y := by
  obtain ⟨y, -, hxy⟩ := exists_mem_of_forall₂ h hx
  exact ⟨y, hxy⟩

theorem exists_forall₂ (h : ∀ x ∈ xs, ∃ y, R x y) : ∃ ys, List.Forall₂ R xs ys := by
  induction xs with
  | nil => exact ⟨[], .nil⟩
  | cons x xs ih =>
      obtain ⟨y, hy⟩ := h x List.mem_cons_self
      obtain ⟨ys, hys⟩ := ih fun x hx => h x (List.mem_cons_of_mem _ hx)
      exact ⟨y :: ys, .cons hy hys⟩

theorem eq_of_forall₂ (hy : List.Forall₂ R xs ys) (hz : List.Forall₂ R xs zs)
    (hunique : ∀ y ∈ ys, ∀ x z, R x y → R x z → y = z) : ys = zs := by
  induction hy generalizing zs with
  | nil => exact (List.forall₂_nil_left_iff.mp hz).symm
  | @cons x y xs ys hxy _ ih =>
      obtain ⟨z, zs, hxz, hzs, rfl⟩ := List.forall₂_cons_left_iff.mp hz
      obtain rfl := hunique y List.mem_cons_self x z hxy hxz
      rw [ih hzs fun y hy => hunique y (List.mem_cons_of_mem _ hy)]

theorem eq_map_of_forall₂ {f : β → α} (h : List.Forall₂ R xs ys)
    (hf : ∀ y ∈ ys, ∀ x, R x y → x = f y) : xs = ys.map f := by
  induction h with
  | nil => rfl
  | @cons x y xs ys hxy _ ih =>
      rw [List.map_cons, ← hf y List.mem_cons_self x hxy,
        ← ih fun y hy => hf y (List.mem_cons_of_mem _ hy)]

theorem forall₂_congr (h : ∀ x ∈ xs, ∀ y ∈ ys, (R x y ↔ S x y)) :
    List.Forall₂ R xs ys ↔ List.Forall₂ S xs ys := by
  rw [List.forall₂_iff_zip, List.forall₂_iff_zip]
  refine and_congr_right fun _ => ?_
  constructor
  · intro hzip x y hmem
    obtain ⟨hx, hy⟩ := List.of_mem_zip hmem
    exact (h x hx y hy).mp (hzip hmem)
  · intro hzip x y hmem
    obtain ⟨hx, hy⟩ := List.of_mem_zip hmem
    exact (h x hx y hy).mpr (hzip hmem)

end AppearanceSync
