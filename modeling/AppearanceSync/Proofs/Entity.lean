import AppearanceSync.Entity.Ids
import AppearanceSync.Entity.Table
import Mathlib.Data.List.Nodup
import Mathlib.Data.List.Perm.Basic

/-!
# Entities and their rows

As long as names are taken only while one is left, the names in use behave like a set: a name that
is taken was not in use, and a name that is given back is the only one that is not in use any more.

The order of a table's rows depends on what was removed from it.  So the table after a row was
removed or changed is compared with the other rows in any order.
-/

namespace AppearanceSync

namespace EntityId

theorem place_ofParts {place : ℕ} (hplace : place < UInt32.size) (generation : ℕ) :
    (ofParts place generation).place = place := by
  have hdvd : UInt32.size ∣ 2 ^ 64 := by decide
  rw [ofParts, EntityId.place, UInt64.toNat_ofNat', Nat.mod_mod_of_dvd _ hdvd,
    Nat.mul_add_mod_self_right, Nat.mod_eq_of_lt hplace]

end EntityId

namespace EntityIds

/-- There are not more places than fit into a name, and what is free is a place, and free once. -/
structure WellFormed (ids : EntityIds) : Prop where
  size_le : ids.generations.size ≤ UInt32.size
  free_lt : ∀ place ∈ ids.free, place < ids.generations.size
  nodup : ids.free.Nodup

/-- An entity stands at the place. -/
def Taken (ids : EntityIds) (place : ℕ) : Prop :=
  place < ids.generations.size ∧ place ∉ ids.free

variable {ids : EntityIds} {id other : EntityId}

theorem wellFormed_empty : empty.WellFormed where
  size_le := Nat.zero_le _
  free_lt := by simp [empty]
  nodup := List.nodup_nil

theorem isUsed_iff : ids.isUsed id = true ↔ ids.Taken id.place ∧ ids.current id.place = id := by
  simp [isUsed, Taken, and_assoc]

/-! ## A name is taken -/

/-- The first generation is also the one that is next where no entity has been. -/
theorem current_take (ids : EntityIds) : ids.take.1.current = ids.current := by
  obtain ⟨generations, free⟩ := ids
  cases free with
  | cons place free => rfl
  | nil =>
      funext place
      have hget : (generations.push 1).getD place 1 = generations.getD place 1 := by
        rw [Array.getD_eq_getD_getElem?, Array.getD_eq_getD_getElem?, Array.getElem?_push]
        by_cases hplace : place = generations.size
        · simp [hplace]
        · rw [if_neg hplace]
      rw [take, current, current, hget]

/-- A new entity stands at a place that was not taken, under the name that was next there. -/
theorem WellFormed.exists_place (h : ids.WellFormed) (hroom : ids.hasRoom = true) :
    ∃ place < UInt32.size, ids.take.2 = ids.current place ∧ ¬ids.Taken place ∧
      ∀ p, ids.take.1.Taken p ↔ ids.Taken p ∨ p = place := by
  obtain ⟨generations, free⟩ := ids
  cases free with
  | cons place free =>
      have hplace := h.free_lt place List.mem_cons_self
      have hnew := (List.nodup_cons.mp h.nodup).1
      refine ⟨place, Nat.lt_of_lt_of_le hplace h.size_le, rfl, ?_, fun p => ?_⟩
      · exact fun htaken => htaken.2 List.mem_cons_self
      · by_cases hp : p = place
        · subst hp
          simpa [take, Taken, hnew] using hplace
        · simp [take, Taken, hp]
  | nil =>
      refine ⟨generations.size, by simpa [hasRoom] using hroom, ?_, ?_, fun p => ?_⟩
      · simp [take, current]
      · simp [Taken]
      · simp only [take, Taken, Array.size_push, List.not_mem_nil, not_false_eq_true, and_true]
        exact Nat.lt_succ_iff_lt_or_eq

theorem WellFormed.take (h : ids.WellFormed) (hroom : ids.hasRoom = true) :
    ids.take.1.WellFormed := by
  obtain ⟨generations, free⟩ := ids
  cases free with
  | cons place free =>
      exact ⟨h.size_le, (List.forall_mem_cons.mp h.free_lt).2, (List.nodup_cons.mp h.nodup).2⟩
  | nil =>
      have hsize : generations.size < UInt32.size := by simpa [hasRoom] using hroom
      refine ⟨?_, by simp [EntityIds.take], List.nodup_nil⟩
      simpa [EntityIds.take] using Nat.succ_le_of_lt hsize

/-- A name that is taken was not in use, and besides it the same names are in use. -/
theorem WellFormed.isUsed_take (h : ids.WellFormed) (hroom : ids.hasRoom = true) :
    ids.isUsed ids.take.2 = false ∧
      ∀ other, ids.take.1.isUsed other = true ↔ ids.isUsed other = true ∨ other = ids.take.2 := by
  obtain ⟨place, hplace, hname, hnew, htaken⟩ := h.exists_place hroom
  have hthere : ids.take.2.place = place := by
    rw [hname]
    exact EntityId.place_ofParts hplace _
  constructor
  · rw [← Bool.not_eq_true, isUsed_iff, hthere]
    exact fun hused => hnew hused.1
  · intro other
    rw [isUsed_iff, isUsed_iff, htaken, current_take]
    constructor
    · rintro ⟨hold | hother, heq⟩
      · exact Or.inl ⟨hold, heq⟩
      · exact Or.inr (by rw [hname, ← hother, heq])
    · rintro (⟨hold, heq⟩ | rfl)
      · exact ⟨Or.inl hold, heq⟩
      · exact ⟨Or.inr hthere, by rw [hthere, hname]⟩

/-! ## A name is given back -/

/-- Two names in use at one place are one name. -/
theorem eq_of_place_eq (hid : ids.isUsed id = true) (hother : ids.isUsed other = true)
    (hplace : other.place = id.place) : other = id := by
  rw [← (isUsed_iff.mp hid).2, ← (isUsed_iff.mp hother).2, hplace]

theorem WellFormed.giveBack (h : ids.WellFormed) (id : EntityId) :
    (ids.giveBack id).1.WellFormed := by
  rw [EntityIds.giveBack]
  split
  · next hused =>
      obtain ⟨⟨hlt, hfree⟩, -⟩ := isUsed_iff.mp hused
      refine ⟨by simpa using h.size_le, ?_, List.nodup_cons.mpr ⟨hfree, h.nodup⟩⟩
      simpa using ⟨hlt, h.free_lt⟩
  · exact h

theorem snd_giveBack (ids : EntityIds) (id : EntityId) : (ids.giveBack id).2 = ids.isUsed id := by
  rw [giveBack]
  split
  · next hused => exact hused.symm
  · next hunused => exact (Bool.eq_false_iff.mpr hunused).symm

/-- A name that is given back is not in use any more, and all others are as before. -/
theorem isUsed_giveBack (hid : ids.isUsed id = true) (other : EntityId) :
    (ids.giveBack id).1.isUsed other = true ↔ ids.isUsed other = true ∧ other ≠ id := by
  rw [giveBack, if_pos hid]
  by_cases hplace : other.place = id.place
  · have hgone : ¬(ids.isUsed other = true ∧ other ≠ id) := by
      rintro ⟨hother, hne⟩
      exact hne (eq_of_place_eq hid hother hplace)
    rw [isUsed_iff]
    simp [Taken, hplace, hgone]
  · have hne : other ≠ id := fun heq => hplace (congrArg EntityId.place heq)
    have hget : (ids.generations.modify id.place EntityId.nextGeneration).getD other.place 1 =
        ids.generations.getD other.place 1 := by
      rw [Array.getD_eq_getD_getElem?, Array.getD_eq_getD_getElem?, Array.getElem?_modify,
        if_neg (Ne.symm hplace)]
    rw [isUsed_iff, isUsed_iff, current, current, hget]
    simp [Taken, hplace, hne]

end EntityIds

namespace Table

variable {α : Type} {t : Table α} {id other : EntityId} {a : α}

/-- The names under which there are rows. -/
def names (t : Table α) : List EntityId := t.rows.map Prod.fst

theorem find?_modify (t : Table α) (id other : EntityId) (change : α → α) :
    (t.modify id change).find? other =
      if other = id then (t.find? other).map change else t.find? other := by
  rw [modify, find?, find?]
  induction t.rows with
  | nil => simp
  | cons row rows ih =>
      rw [List.map_cons, List.find?_cons, List.find?_cons]
      by_cases hrow : row.1 = id
      · by_cases hother : other = id
        · simp [hrow, hother]
        · have hne : id ≠ other := Ne.symm hother
          simpa [hrow, hother, hne] using ih
      · by_cases hother : row.1 = other
        · have hne : other ≠ id := hother ▸ hrow
          simp [hother, hne]
        · simpa [hrow, hother] using ih

theorem mem_rows_of_find? (h : t.find? id = some a) : (id, a) ∈ t.rows := by
  obtain ⟨row, hrow, rfl⟩ := Option.map_eq_some_iff.mp h
  have hid : row.1 = id := by simpa using List.find?_some hrow
  rw [← hid]
  exact List.mem_of_find?_eq_some hrow

/-- If no entity has two rows, each row is found. -/
theorem find?_eq_some_iff (h : t.names.Nodup) : t.find? id = some a ↔ (id, a) ∈ t.rows := by
  refine ⟨mem_rows_of_find?, fun hmem => ?_⟩
  obtain ⟨rows⟩ := t
  rw [names] at h
  rw [find?]
  induction rows with
  | nil => exact absurd hmem List.not_mem_nil
  | cons row rows ih =>
      obtain ⟨hnew, hrest⟩ := List.nodup_cons.mp h
      rw [List.find?_cons]
      rcases List.mem_cons.mp hmem with rfl | hmem
      · simp
      · have hne : row.1 ≠ id := fun heq => hnew (heq ▸ List.mem_map_of_mem hmem)
        simpa [hne] using ih hrest hmem

theorem names_modify (t : Table α) (id : EntityId) (change : α → α) :
    (t.modify id change).names = t.names := by
  rw [names, modify, List.map_map]
  refine List.map_congr_left fun row _ => ?_
  by_cases hrow : row.1 = id <;> simp [hrow]

theorem eraseRow_of_not_mem {rows : List (EntityId × α)} (h : id ∉ rows.map Prod.fst) :
    eraseRow id rows = rows := by
  induction rows with
  | nil => rfl
  | cons row rows ih =>
      rw [List.map_cons, List.mem_cons, not_or] at h
      rw [eraseRow, if_neg (Ne.symm h.1), ih h.2]

/-- What is removed is one row, since the last row only takes its place. -/
theorem perm_eraseRow {rows : List (EntityId × α)} {row : EntityId × α}
    (h : rows.find? (fun row => row.1 = id) = some row) : rows.Perm (row :: eraseRow id rows) := by
  induction rows with
  | nil => exact absurd h (by simp)
  | cons first rows ih =>
      rw [List.find?_cons] at h
      by_cases hfirst : first.1 = id
      · obtain rfl : first = row := by simpa [hfirst] using h
        rw [eraseRow, if_pos hfirst]
        apply List.Perm.cons
        cases hlast : rows.getLast? with
        | none =>
            rw [List.getLast?_eq_none_iff.mp hlast]
        | some last =>
            obtain ⟨init, rfl⟩ := List.getLast?_eq_some_iff.mp hlast
            rw [List.dropLast_concat]
            exact List.perm_append_singleton last init
      · rw [eraseRow, if_neg hfirst]
        exact ((ih (by simpa [hfirst] using h)).cons first).trans (.swap row first _)

theorem perm_erase (h : t.find? id = some a) : t.rows.Perm ((id, a) :: (t.erase id).rows) := by
  obtain ⟨row, hrow, rfl⟩ := Option.map_eq_some_iff.mp h
  have hid : row.1 = id := by simpa using List.find?_some hrow
  have hperm := perm_eraseRow hrow
  rwa [← hid] at hperm ⊢

theorem erase_of_find?_eq_none (h : t.find? id = none) : t.erase id = t := by
  rw [erase, eraseRow_of_not_mem]
  intro hmem
  obtain ⟨row, hrow, rfl⟩ := List.mem_map.mp hmem
  rw [find?, Option.map_eq_none_iff, List.find?_eq_none] at h
  exact h row hrow (by simp)

/-- A row that is changed is, besides the others, what it was changed to. -/
theorem perm_modify (hnodup : t.names.Nodup) (h : t.find? id = some a) (change : α → α) :
    (t.modify id change).rows.Perm ((id, change a) :: (t.erase id).rows) := by
  have hperm := perm_erase h
  have hothers : id ∉ (t.erase id).rows.map Prod.fst :=
    (List.nodup_cons.mp ((hperm.map Prod.fst).nodup_iff.mp hnodup)).1
  let changed (row : EntityId × α) : EntityId × α :=
    if row.1 = id then (row.1, change row.2) else row
  have hsame : (t.erase id).rows.map changed = (t.erase id).rows := by
    refine (List.map_congr_left fun row hrow => if_neg ?_).trans (List.map_id _)
    rintro rfl
    exact hothers (List.mem_map_of_mem hrow)
  have hhere : changed (id, a) = (id, change a) := if_pos rfl
  have hchanged := hperm.map changed
  rwa [List.map_cons, hsame, hhere] at hchanged

end Table
end AppearanceSync
