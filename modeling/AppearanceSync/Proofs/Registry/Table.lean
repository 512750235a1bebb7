import AppearanceSync.Registry.Intern
import Mathlib.Data.Multiset.Bind

/-!
# The table of registered instances

This module says what each elementary change of a registry does to its table:
which instance stands under which id afterwards, and how the collection of all
registered instances changes.  Nothing here depends on who holds an instance.
-/

namespace AppearanceSync

namespace Canonical

variable {κ : Type}

mutual

/-- The longest way down through filled slots. -/
def height : Canonical κ → ℕ
  | mk _ _ _ overlays underlays => max (heightOf overlays) (heightOf underlays)

/-- One more than the longest way down from what is in these slots, or zero. -/
def heightOf : List (Slot κ) → ℕ
  | [] => 0
  | slot :: slots => max (slotHeight slot) (heightOf slots)

/-- One more than the longest way down from what is in a slot, or zero. -/
def slotHeight : Slot κ → ℕ
  | .pending _ => 0
  | .filled a => a.height + 1

end

theorem height_lt_heightOf {b : Canonical κ} {slots : List (Slot κ)} (hb : b ∈ partsOf slots) :
    b.height < heightOf slots := by
  induction slots with
  | nil => exact absurd hb List.not_mem_nil
  | cons slot slots ih =>
      rw [heightOf]
      cases slot with
      | pending id => exact lt_max_of_lt_right (ih hb)
      | filled c =>
          rcases List.mem_cons.mp hb with rfl | hb
          · exact lt_max_of_lt_left (Nat.lt_succ_self _)
          · exact lt_max_of_lt_right (ih hb)

/-- An appearance is higher than what stands in one of its slots. -/
theorem height_lt_of_mem_parts {a b : Canonical κ} (hb : b ∈ a.parts) : b.height < a.height := by
  obtain ⟨key, id, properties, above, below⟩ := a
  rw [parts, slots, partsOf, List.filterMap_append] at hb
  rcases List.mem_append.mp hb with hb | hb
  · exact lt_max_of_lt_left (height_lt_heightOf hb)
  · exact lt_max_of_lt_right (height_lt_heightOf hb)

/-- What holds of an appearance whenever it holds of everything in its slots holds of all. -/
theorem induction_on_parts {motive : Canonical κ → Prop}
    (step : ∀ a, (∀ b ∈ a.parts, motive b) → motive a) (a : Canonical κ) : motive a :=
  step a fun b _ => induction_on_parts step b
termination_by a.height
decreasing_by exact height_lt_of_mem_parts ‹_›

/-- If every slot is filled, the wire state refers to exactly the parts. -/
theorem references_toState {a : Canonical κ} (hfull : ∀ s ∈ a.slots, s.isFilled = true) :
    a.toState.references = a.parts.map id := by
  have key : ∀ slots : List (Slot κ), (∀ s ∈ slots, s.isFilled = true) →
      slots.map Slot.id = (partsOf slots).map id := by
    intro slots
    induction slots with
    | nil => simp [partsOf]
    | cons s slots ih =>
        intro h
        have hs := h s (by simp)
        cases s with
        | pending id => simp [Slot.isFilled, Slot.appearance?] at hs
        | filled b =>
            have := ih fun s hs => h s (by simp [hs])
            simpa [partsOf, Slot.appearance?, Slot.id] using this
  rw [parts, ← key a.slots hfull]
  simp [toState, WireState.references, slots]

theorem parts_ofParts (key : κ) (properties : Properties) (overlays underlays : List (Canonical κ)) :
    (ofParts key properties overlays underlays).parts = overlays ++ underlays := by
  have h : ∀ as : List (Canonical κ), (as.map Slot.filled).filterMap Slot.appearance? = as := by
    intro as
    induction as with
    | nil => rfl
    | cons a as ih => simp [Slot.appearance?, ih]
  simp [parts, partsOf, slots, ofParts, Canonical.overlays, Canonical.underlays, h]

theorem isFilled_of_mem_slots_ofParts {key : κ} {properties : Properties}
    {overlays underlays : List (Canonical κ)} {s : Slot κ}
    (hs : s ∈ (ofParts key properties overlays underlays).slots) : s.isFilled = true := by
  simp only [slots, ofParts, Canonical.overlays, Canonical.underlays, List.mem_append,
    List.mem_map] at hs
  rcases hs with ⟨a, -, rfl⟩ | ⟨a, -, rfl⟩ <;> rfl

/-- An appearance of known parts is named by the hash of its wire state. -/
theorem id_ofParts (key : κ) (properties : Properties) (overlays underlays : List (Canonical κ)) :
    (ofParts key properties overlays underlays).id =
      (ofParts key properties overlays underlays).toState.contentId := by
  have h : (id : Canonical κ → ContentId) = Slot.id ∘ Slot.filled := rfl
  simp [ofParts, toState, Canonical.id, Canonical.properties, Canonical.overlays,
    Canonical.underlays, h]

theorem toDescriptor_eq (a : Canonical κ) :
    a.toDescriptor = do
      let overlays ← a.overlays.mapM slotDescriptor
      let underlays ← a.underlays.mapM slotDescriptor
      return ⟨a.properties, overlays, underlays⟩ := by
  obtain ⟨key, id, properties, overlays, underlays⟩ := a
  rw [toDescriptor, slotDescriptors_eq_mapM, slotDescriptors_eq_mapM, Canonical.overlays,
    Canonical.underlays]
  cases overlays.mapM slotDescriptor with
  | error e => rfl
  | ok xs => cases underlays.mapM slotDescriptor <;> rfl

end Canonical

namespace Registry

variable {r : Registry} {a b : Handle} {id : ContentId}

/-! ## Lookups after one change -/

@[simp] theorem entries_announce (r : Registry) (e : OutboundEvent) :
    (r.announce e).entries = r.entries := by
  unfold announce
  split <;> rfl

@[simp] theorem entries_publish (r : Registry) (m : Message) :
    (r.publish m).entries = r.entries := entries_announce r _

@[simp] theorem find?_announce (r : Registry) (e : OutboundEvent) (id : ContentId) :
    (r.announce e).find? id = r.find? id := by
  simp [find?]

theorem find?_retain (r : Registry) (a : Handle) (id : ContentId) :
    (r.retain a).find? id = r.find? id := by
  simp only [find?, retain, Std.TreeMap.getElem?_modify]
  split
  · next h =>
      obtain rfl := Std.LawfulEqCmp.compare_eq_iff_eq.mp h
      simp [Option.map_map, Function.comp_def]
  · rfl

theorem find?_register (r : Registry) (a : Handle) (id : ContentId) :
    (r.register a).find? id = if id = a.id then some a else r.find? id := by
  simp only [find?, register, entries_publish, Std.TreeMap.getElem?_insert,
    Std.LawfulEqCmp.compare_eq_iff_eq, eq_comm (a := id)]
  split <;> rfl

theorem find?_remove (r : Registry) (removed id : ContentId) :
    (r.remove removed).find? id = if id = removed then none else r.find? id := by
  simp only [find?, remove, entries_publish, Std.TreeMap.getElem?_erase,
    Std.LawfulEqCmp.compare_eq_iff_eq, eq_comm (a := id)]
  split <;> rfl

theorem contains_eq_isSome_find? (r : Registry) (id : ContentId) :
    r.contains id = (r.find? id).isSome := by
  simp [contains, find?]

/-- The last holder of a registered instance removes it; any other leaves the table as it is. -/
theorem letGo_eq_of_entry {e : RegistryEntry} (he : r.entries[a.id]? = some e)
    (hkey : e.handle = a) :
    r.letGo a.key a.id =
      if e.holders ≤ 1 then (r.remove a.id, true)
      else ({ r with entries := r.entries.insert a.id { e with holders := e.holders - 1 } },
        false) := by
  simp [letGo, he, hkey]

theorem letGo_eq_remove_of_last {serial : Serial} (h : (r.letGo serial id).2 = true) :
    (r.letGo serial id).1 = r.remove id := by
  unfold letGo at h ⊢
  split at h
  · simp at h
  · split_ifs at h ⊢
    rfl

theorem outbox_letGo_of_kept {serial : Serial} (h : (r.letGo serial id).2 = false) :
    (r.letGo serial id).1.outbox = r.outbox := by
  unfold letGo at h ⊢
  split at h
  · rfl
  · split_ifs at h ⊢ <;> rfl

theorem find?_letGo_of_kept {serial : Serial} (h : (r.letGo serial id).2 = false) :
    (r.letGo serial id).1.find? = r.find? := by
  unfold letGo at h ⊢
  split at h
  · rfl
  · next e he =>
      split_ifs at h ⊢
      · rfl
      · funext other
        simp only [find?, Std.TreeMap.getElem?_insert, Std.LawfulEqCmp.compare_eq_iff_eq]
        split
        · next heq => simp [← heq, he]
        · rfl

/-! ## The collection of registered instances -/

theorem mem_live_iff : a ∈ r.live ↔ ∃ id, r.find? id = some a := by
  simp only [live, List.mem_map, find?, Option.map_eq_some_iff]
  constructor
  · rintro ⟨⟨id, e⟩, he, rfl⟩
    exact ⟨id, e, Std.TreeMap.mem_toList_iff_getElem?_eq_some.mp he, rfl⟩
  · rintro ⟨id, e, he, rfl⟩
    exact ⟨(id, e), Std.TreeMap.mem_toList_iff_getElem?_eq_some.mpr he, rfl⟩

/-- Every instance stands under its own id. -/
def Named (r : Registry) : Prop := ∀ id a, r.find? id = some a → a.id = id

theorem Named.mem_live_iff (h : r.Named) : a ∈ r.live ↔ r.find? a.id = some a := by
  rw [Registry.mem_live_iff]
  constructor
  · rintro ⟨id, hid⟩
    rwa [h id a hid]
  · intro ha
    exact ⟨a.id, ha⟩

theorem Named.id_of_mem_toList (h : r.Named) {e : ContentId × RegistryEntry}
    (he : e ∈ r.entries.toList) : e.2.handle.id = e.1 := by
  rw [Std.TreeMap.mem_toList_iff_getElem?_eq_some] at he
  exact h e.1 _ (by simp [find?, he])

theorem Named.pairwise_live (h : r.Named) : r.live.Pairwise fun a b => a.id ≠ b.id := by
  rw [live, List.pairwise_map]
  refine (Std.TreeMap.distinct_keys_toList (t := r.entries)).imp_of_mem fun he hf hne heq => hne ?_
  rw [h.id_of_mem_toList he, h.id_of_mem_toList hf] at heq
  exact Std.LawfulEqCmp.compare_eq_iff_eq.mpr heq

/-- The registered instances are in ascending order of their ids. -/
theorem Named.mergeSort_live (h : r.Named) :
    r.live.mergeSort (fun a b => a.id.hash.toNat ≤ b.id.hash.toNat) = r.live := by
  apply List.mergeSort_of_pairwise
  rw [live, List.pairwise_map]
  refine (Std.TreeMap.ordered_keys_toList (t := r.entries)).imp_of_mem ?_
  intro x y hx hy hcompare
  have hlt : x.1.hash < y.1.hash := Std.compare_eq_lt.mp hcompare
  rw [h.id_of_mem_toList hx, h.id_of_mem_toList hy]
  exact decide_eq_true (Nat.le_of_lt (UInt64.lt_iff_toNat_lt.mp hlt))

theorem Named.nodup_live (h : r.Named) : r.live.Nodup :=
  h.pairwise_live.imp fun hne heq => hne (congrArg Canonical.id heq)

/-- Registries with the same lookups have the same registered instances. -/
theorem live_eq_of_find?_eq {r' : Registry} (h : r.Named) (hfind : r'.find? = r.find?) :
    (r'.live : Multiset Handle) = r.live := by
  have h' : r'.Named := by
    intro id a ha
    exact h id a (hfind ▸ ha)
  refine (Multiset.Nodup.ext (Multiset.coe_nodup.mpr h'.nodup_live)
    (Multiset.coe_nodup.mpr h.nodup_live)).mpr fun a => ?_
  rw [Multiset.mem_coe, Multiset.mem_coe, h'.mem_live_iff, h.mem_live_iff, hfind]

/-- A registry with one more id has that id's instance besides the others. -/
theorem live_eq_cons_of_find?_eq {r' : Registry} (h : r.Named) (hnew : r.find? a.id = none)
    (hfind : ∀ id, r'.find? id = if id = a.id then some a else r.find? id) :
    (r'.live : Multiset Handle) = a ::ₘ r.live := by
  have h' : r'.Named := by
    intro id b hb
    rw [hfind] at hb
    split at hb
    · next heq => simp_all
    · exact h id b hb
  have hnot : a ∉ (r.live : Multiset Handle) := by
    rw [Multiset.mem_coe, h.mem_live_iff, hnew]
    simp
  refine (Multiset.Nodup.ext (Multiset.coe_nodup.mpr h'.nodup_live)
    (Multiset.nodup_cons.mpr ⟨hnot, Multiset.coe_nodup.mpr h.nodup_live⟩)).mpr fun b => ?_
  rw [Multiset.mem_cons, Multiset.mem_coe, Multiset.mem_coe, h'.mem_live_iff, h.mem_live_iff,
    hfind]
  by_cases hb : b.id = a.id
  · rw [if_pos hb, hb, hnew]
    simp [eq_comm]
  · rw [if_neg hb]
    constructor
    · exact Or.inr
    · rintro (rfl | hmem)
      · exact absurd rfl hb
      · exact hmem

end Registry
end AppearanceSync
