import AppearanceSync.Replica.Walk
import Mathlib.Data.List.Basic

/-!
# Slots in the arena

An arena is looked at here as a collection of states and slots.  Adding an
instance adds its state and its slots, which are empty; filling a slot changes
that slot and no other, and not if it is filled already.
-/

namespace AppearanceSync

namespace Instance

variable {i : Instance} {id : ContentId} {k : ℕ}

theorem slots_ofState (state : WireState) :
    (ofState state).slots = state.references.map fun ref => (ref, none) := by
  simp only [slots, ofState]
  induction state.references with
  | nil => rfl
  | cons ref refs ih => rw [List.map_cons, List.zip_cons_cons, ih, List.map_cons]

theorem getElem?_slots_fill (i : Instance) (k : ℕ) (m : Serial) (j : ℕ) :
    (i.fill k m).slots[j]? =
      if j = k then i.slots[j]?.map fun s => (s.1, some (s.2.getD m)) else i.slots[j]? := by
  simp only [slots, fill, List.zip, List.getElem?_zipWith, List.getElem?_modify]
  by_cases h : j = k
  · subst h
    cases i.state.references[j]? <;> cases i.targets[j]? <;> simp
  · cases i.state.references[j]? <;> cases i.targets[j]? <;> simp [h, Ne.symm h]

theorem mem_emptySlots : (id, k) ∈ i.emptySlots ↔ i.slots[k]? = some (id, none) := by
  simp only [emptySlots, List.mem_map, List.mem_filter, Prod.mk.injEq]
  constructor
  · rintro ⟨⟨⟨ref, target⟩, j⟩, ⟨hmem, hempty⟩, rfl, rfl⟩
    obtain rfl : target = none := Option.isNone_iff_eq_none.mp hempty
    exact List.mem_zipIdx_iff_getElem?.mp hmem
  · intro h
    exact ⟨((id, none), k), ⟨List.mem_zipIdx_iff_getElem?.mpr h, rfl⟩, rfl, rfl⟩

/-- No position is listed twice. -/
theorem nodup_positions (i : Instance) : (i.emptySlots.map Prod.snd).Nodup := by
  have hpositions : (i.slots.zipIdx.map Prod.snd).Nodup := by
    rw [List.zipIdx_map_snd]
    exact List.nodup_range'
  rw [emptySlots, List.map_map]
  exact hpositions.sublist (List.filter_sublist.map _)

end Instance

namespace Arena

variable {a b : Arena} {i : Instance} {n m p : Serial} {k j : ℕ} {id : ContentId}
  {state : WireState}

/-- The state of an instance. -/
def state? (a : Arena) (n : Serial) : Option WireState := (a.get? n).map (·.state)

/-- The name of an instance. -/
def id? (a : Arena) (n : Serial) : Option ContentId := (a.state? n).map (·.contentId)

/-- A slot of an instance. -/
def slotAt? (a : Arena) (n : Serial) (k : ℕ) : Option (ContentId × Option Serial) :=
  (a.get? n).bind fun i => i.slots[k]?

/-- The slots of every instance are named by what its state refers to. -/
def Shaped (a : Arena) : Prop :=
  ∀ n i, a.get? n = some i → i.slots.map Prod.fst = i.state.references

/-! ## Adding an instance -/

theorem get?_push (a : Arena) (i : Instance) (n : Serial) :
    (a.push i).get? n = if n = a.next then some i else a.get? n := by
  rw [get?, push, Array.getElem?_push]
  rfl

theorem lt_next_of_get? (h : a.get? n = some i) : n < a.next :=
  (Array.getElem?_eq_some_iff.mp h).1

theorem get?_next (a : Arena) : a.get? a.next = none :=
  Array.getElem?_eq_none_iff.mpr (Nat.le_refl _)

theorem state?_push (a : Arena) (i : Instance) (n : Serial) :
    (a.push i).state? n = if n = a.next then some i.state else a.state? n := by
  rw [state?, get?_push]
  split <;> rfl

theorem id?_push (h : a.id? n = some id) (state : WireState) :
    (a.push (.ofState state)).id? n = some id := by
  have hne : n ≠ a.next := by
    obtain ⟨old, hold, -⟩ := Option.map_eq_some_iff.mp h
    rintro rfl
    simp [state?, get?_next] at hold
  rw [id?, state?_push, if_neg hne]
  exact h

theorem id?_push_next (a : Arena) (state : WireState) :
    (a.push (.ofState state)).id? a.next = some state.contentId := by
  rw [id?, state?_push, if_pos rfl]
  rfl

theorem slotAt?_push (a : Arena) (state : WireState) (n : Serial) (k : ℕ) :
    (a.push (.ofState state)).slotAt? n k =
      if n = a.next then state.references[k]?.map fun ref => (ref, none) else a.slotAt? n k := by
  rw [slotAt?, get?_push]
  split
  · rw [Option.bind_some, Instance.slots_ofState, List.getElem?_map]
  · rfl

theorem ne_next_of_slotAt? {s : ContentId × Option Serial} (h : a.slotAt? n k = some s) :
    n ≠ a.next := by
  rintro rfl
  simp [slotAt?, get?_next] at h

theorem Shaped.push (h : a.Shaped) (state : WireState) : (a.push (.ofState state)).Shaped := by
  intro n i hi
  rw [get?_push] at hi
  split at hi
  · obtain rfl := Option.some.inj hi
    rw [Instance.slots_ofState, List.map_map]
    exact List.map_id _
  · exact h n i hi

/-! ## Filling a slot -/

theorem get?_fill (a : Arena) (p : Serial) (k : ℕ) (m n : Serial) :
    (a.fill p k m).get? n = if n = p then (a.get? n).map fun i => i.fill k m else a.get? n := by
  simp only [get?, fill, Array.getElem?_modify, eq_comm (a := n)]

theorem state?_fill (a : Arena) (p : Serial) (k : ℕ) (m n : Serial) :
    (a.fill p k m).state? n = a.state? n := by
  rw [state?, get?_fill]
  split
  · rw [Option.map_map]
    rfl
  · rfl

theorem slotAt?_fill (a : Arena) (p : Serial) (k : ℕ) (m n : Serial) (j : ℕ) :
    (a.fill p k m).slotAt? n j =
      if n = p ∧ j = k then (a.slotAt? n j).map fun s => (s.1, some (s.2.getD m))
      else a.slotAt? n j := by
  rw [slotAt?, get?_fill]
  by_cases hn : n = p
  · rw [if_pos hn, slotAt?]
    cases a.get? n with
    | none => simp
    | some i => simpa [hn] using i.getElem?_slots_fill k m j
  · rw [if_neg hn, if_neg fun h => hn h.1]
    rfl

theorem Shaped.fill (h : a.Shaped) (p : Serial) (k : ℕ) (m : Serial) : (a.fill p k m).Shaped := by
  intro n i hi
  rw [get?_fill] at hi
  split at hi
  · obtain ⟨j, hj, rfl⟩ := Option.map_eq_some_iff.mp hi
    change _ = j.state.references
    rw [← h n j hj]
    apply List.ext_getElem?
    intro l
    rw [List.getElem?_map, List.getElem?_map, Instance.getElem?_slots_fill]
    split
    · rw [Option.map_map]
      rfl
    · rfl
  · exact h n i hi

end Arena
end AppearanceSync
