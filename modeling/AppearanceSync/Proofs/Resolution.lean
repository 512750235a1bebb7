import AppearanceSync.Proofs.Registry.Table

/-!
# Whether everything has arrived, and what has not

Two recursions go down an appearance: one asks whether every slot is filled, the other copies
what it finds and stops at the first slot that is not.  Both are compared with the list of all
slots that are not filled, in the order in which they come up in drawing.
-/

namespace AppearanceSync

namespace Canonical

variable {κ : Type}

/-! ## Slots that are not filled -/

mutual

/-- The ids of the slots that are not filled, in drawing order: those over the appearance before
those under it, and all below a filled slot before the next slot. -/
def unresolved : Canonical κ → List ContentId
  | mk _ _ _ overlays underlays => unresolvedOf overlays ++ unresolvedOf underlays

/-- The ids of those that are not filled among these slots and all below them. -/
def unresolvedOf : List (Slot κ) → List ContentId
  | [] => []
  | slot :: slots => slotUnresolved slot ++ unresolvedOf slots

/-- The ids of those that are not filled among this slot and all below it. -/
def slotUnresolved : Slot κ → List ContentId
  | .pending id => [id]
  | .filled a => a.unresolved

end

/-- What is to be answered about an appearance: it is resolved if no slot is left to be filled,
it can be copied if it is resolved, and otherwise the first slot in drawing order is blamed. -/
structure Answers (a : Canonical κ) (resolved : Bool)
    (copy : Except AppearanceError Descriptor) : Prop where
  resolved_iff : resolved = true ↔ a.unresolved = []
  copied_iff : (∃ d, copy = .ok d) ↔ resolved = true
  blamed_iff : ∀ e, copy = .error e ↔ ∃ id, a.unresolved.head? = some id ∧ e = .unresolved id

/-! ## The check -/

mutual

theorem isFullyResolved_iff : ∀ a : Canonical κ, a.isFullyResolved = true ↔ a.unresolved = []
  | mk _ _ _ overlays underlays => by
      rw [isFullyResolved, unresolved, Bool.and_eq_true, List.append_eq_nil_iff,
        allResolved_iff overlays, allResolved_iff underlays]

theorem allResolved_iff :
    ∀ slots : List (Slot κ), allResolved slots = true ↔ unresolvedOf slots = []
  | [] => by simp [allResolved, unresolvedOf]
  | slot :: slots => by
      rw [allResolved, unresolvedOf, Bool.and_eq_true, List.append_eq_nil_iff,
        slotResolved_iff slot, allResolved_iff slots]

theorem slotResolved_iff :
    ∀ slot : Slot κ, slotResolved slot = true ↔ slotUnresolved slot = []
  | .pending id => by simp [slotResolved, slotUnresolved]
  | .filled a => by rw [slotResolved, slotUnresolved, isFullyResolved_iff a]

end

/-! ## The copy -/

section Blame

variable {β γ : Type} {ids more : List ContentId} {first : Except AppearanceError β}

/-- The first of these ids is blamed, or there are none and all goes well. -/
def Blames (ids : List ContentId) (result : Except AppearanceError β) : Prop :=
  match ids.head? with
  | some id => result = .error (.unresolved id)
  | none => ∃ b, result = .ok b

/-- Of two steps the first has its ids blamed before those of the second. -/
theorem Blames.bind {next : β → Except AppearanceError γ} (h : Blames ids first)
    (hnext : ∀ b, Blames more (next b)) : Blames (ids ++ more) (first >>= next) := by
  cases ids with
  | nil =>
      obtain ⟨b, rfl⟩ := h
      exact hnext b
  | cons id ids =>
      obtain rfl : first = .error (.unresolved id) := h
      rfl

theorem Blames.map (h : Blames ids first) (f : β → γ) :
    Blames ids (first >>= fun b => .ok (f b)) := by
  have hall : Blames (ids ++ []) (first >>= fun b => .ok (f b)) :=
    h.bind fun b => ⟨f b, rfl⟩
  rwa [List.append_nil] at hall

theorem Blames.ok_iff (h : Blames ids first) : (∃ b, first = .ok b) ↔ ids = [] := by
  cases ids with
  | nil => exact iff_of_true h rfl
  | cons id ids =>
      obtain rfl : first = .error (.unresolved id) := h
      simp

theorem Blames.error_iff {e : AppearanceError} (h : Blames ids first) :
    first = .error e ↔ ∃ id, ids.head? = some id ∧ e = .unresolved id := by
  cases ids with
  | nil =>
      obtain ⟨b, rfl⟩ := h
      simp
  | cons id ids =>
      obtain rfl : first = .error (.unresolved id) := h
      simp [eq_comm]

end Blame

mutual

theorem blames_toDescriptor : ∀ a : Canonical κ, Blames a.unresolved a.toDescriptor
  | mk _ _ _ overlays underlays => by
      rw [toDescriptor_eq, ← slotDescriptors_eq_mapM, ← slotDescriptors_eq_mapM, unresolved]
      exact (blames_slotDescriptors overlays).bind fun _ =>
        (blames_slotDescriptors underlays).map _

theorem blames_slotDescriptors :
    ∀ slots : List (Slot κ), Blames (unresolvedOf slots) (slotDescriptors slots)
  | [] => ⟨[], rfl⟩
  | slot :: slots => by
      rw [slotDescriptors_eq_mapM, List.mapM_cons, ← slotDescriptors_eq_mapM, unresolvedOf]
      exact (blames_slotDescriptor slot).bind fun _ => (blames_slotDescriptors slots).map _

theorem blames_slotDescriptor :
    ∀ slot : Slot κ, Blames (slotUnresolved slot) (slotDescriptor slot)
  | .pending _ => rfl
  | .filled a => by
      rw [slotDescriptor, slotUnresolved]
      exact blames_toDescriptor a

end

/-- The check finds out whether a slot is left to be filled, and the copy finds the first. -/
theorem answers (a : Canonical κ) : a.Answers a.isFullyResolved a.toDescriptor where
  resolved_iff := isFullyResolved_iff a
  copied_iff := (blames_toDescriptor a).ok_iff.trans (isFullyResolved_iff a).symm
  blamed_iff _ := (blames_toDescriptor a).error_iff

end Canonical
end AppearanceSync
