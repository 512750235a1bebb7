import AppearanceSync.Bounds
import AppearanceSync.Replica.Arena

/-!
# Walks through the arena

An instance may stand in many slots, so its tree may be far larger than the arena.  The functions
here follow the slots themselves, in drawing order, and stop as soon as the answer is certain: an
empty slot ends the walk that asks whether all slots are filled, and the one that copies.

Each of them gives what the corresponding function on trees gives for `Arena.view?`, which is the
main statement on it.

A walk is given as many levels as the arena has instances, which is enough for every instance that
is free of cycles.  It runs out of them only on an instance that is part of a cycle or leads into
one.  There a walk without a bound would go round for ever: where it runs out of levels, what it
answers stands for having no answer.
-/

namespace AppearanceSync.Arena

/-! ### Whether everything has arrived -/

/--
Whether every slot is filled, at every level, and there are at most this many levels.  To run out
of levels on an instance with a cycle stands for a walk that never ends.
-/
def resolvedWithin (a : Arena) : Nat → Serial → Bool
  | 0, _ => false
  | levels + 1, n =>
    (a.get? n).any fun i => i.slots.all fun s => s.2.any (a.resolvedWithin levels)

/-- Whether every slot of an instance is filled, at every level. -/
def isResolved (a : Arena) (n : Serial) : Bool := a.resolvedWithin a.instances.size n

theorem slotResolved_slot (tree : Serial → Option (Canonical Serial))
    (s : ContentId × Option Serial) :
    Canonical.slotResolved (slot tree s) =
      s.2.any fun n => (tree n).any Canonical.isFullyResolved := by
  obtain ⟨id, target⟩ := s
  cases target with
  | none => rfl
  | some n => cases h : tree n <;> simp [slot, h, Canonical.slotResolved]

theorem resolvedWithin_eq (a : Arena) (levels : Nat) (n : Serial) :
    a.resolvedWithin levels n = (a.unfold levels n).any Canonical.isFullyResolved := by
  induction levels generalizing n with
  | zero => rfl
  | succ levels ih =>
    have h : a.resolvedWithin levels = fun m => (a.unfold levels m).any Canonical.isFullyResolved :=
      funext ih
    rw [resolvedWithin, unfold, Option.any_map, h]
    congr 1
    funext i
    rw [Canonical.isFullyResolved, Canonical.allResolved_eq_all,
      Canonical.allResolved_eq_all, ← List.all_append, ← List.map_append,
      i.overlaySlots_append_underlaySlots, List.all_map]
    congr 1
    funext s
    exact (slotResolved_slot _ s).symm

/-- The walk finds what the tree shows. -/
theorem isResolved_eq (a : Arena) (n : Serial) :
    a.isResolved n = (a.view? n).any Canonical.isFullyResolved :=
  a.resolvedWithin_eq a.instances.size n

/-! ### Editable copies -/

/-- What is copied from a slot, given the copy of each instance. -/
def slotCopy (copy : Serial → Option (Except AppearanceError Descriptor))
    (s : ContentId × Option Serial) : Except AppearanceError Descriptor :=
  (s.2.bind copy).getD (.error (.unresolved s.1))

/--
An editable copy of at most this many levels, or the first slot that is not filled.  A filled slot
is blamed if the levels run out below it; on an instance with a cycle this stands for a walk that
never ends.
-/
def descriptorWithin (a : Arena) : Nat → Serial → Option (Except AppearanceError Descriptor)
  | 0, _ => none
  | levels + 1, n =>
    (a.get? n).map fun i => do
      let overlays ← i.overlaySlots.mapM (slotCopy (a.descriptorWithin levels))
      let underlays ← i.underlaySlots.mapM (slotCopy (a.descriptorWithin levels))
      return ⟨i.state.properties, overlays, underlays⟩

/-- An editable copy of an instance, or the first slot in drawing order that is not filled. -/
def descriptor? (a : Arena) (n : Serial) : Option (Except AppearanceError Descriptor) :=
  a.descriptorWithin a.instances.size n

theorem slotDescriptor_slot (tree : Serial → Option (Canonical Serial)) :
    Canonical.slotDescriptor ∘ slot tree =
      slotCopy fun n => (tree n).map Canonical.toDescriptor := by
  funext s
  obtain ⟨id, target⟩ := s
  cases target with
  | none => rfl
  | some n => cases h : tree n <;> simp [slot, slotCopy, h, Canonical.slotDescriptor]

theorem descriptorWithin_eq (a : Arena) (levels : Nat) (n : Serial) :
    a.descriptorWithin levels n = (a.unfold levels n).map Canonical.toDescriptor := by
  induction levels generalizing n with
  | zero => rfl
  | succ levels ih =>
    have h : a.descriptorWithin levels =
        fun m => (a.unfold levels m).map Canonical.toDescriptor := funext ih
    rw [descriptorWithin, unfold, Option.map_map, h, ← slotDescriptor_slot]
    congr 1
    funext i
    rw [Function.comp, Canonical.toDescriptor, Canonical.slotDescriptors_eq_mapM,
      Canonical.slotDescriptors_eq_mapM, List.mapM_map, List.mapM_map]
    cases i.overlaySlots.mapM (Canonical.slotDescriptor ∘ slot (a.unfold levels)) with
    | error error => rfl
    | ok overlays =>
      cases i.underlaySlots.mapM (Canonical.slotDescriptor ∘ slot (a.unfold levels)) <;> rfl

/-- The walk copies what the tree shows. -/
theorem descriptor?_eq (a : Arena) (n : Serial) :
    a.descriptor? n = (a.view? n).map Canonical.toDescriptor :=
  a.descriptorWithin_eq a.instances.size n

/-! ### Places in the world -/

/--
The rectangle of an instance at a point and of at most this many levels.  What lies deeper counts
for nothing; on an instance with a cycle this stands for a walk that never ends.
-/
def boundsWithin (a : Arena) (s : Scale) : Nat → Point → Serial → Option Bounds
  | 0, _, _ => none
  | levels + 1, p, n =>
    (a.get? n).bind fun i =>
      let p := s.shift p i.state.properties.pixelOffset
      i.slots.foldl
        (fun present slot => Bounds.union? present (slot.2.bind (a.boundsWithin s levels p)))
        (s.iconBounds p i.state.properties.icon)

/-- The rectangle of an instance at a point and of all that is drawn over and under it. -/
def bounds (a : Arena) (s : Scale) (p : Point) (n : Serial) : Option Bounds :=
  a.boundsWithin s a.instances.size p n

theorem slotBounds_slot (s : Scale) (p : Point) (tree : Serial → Option (Canonical Serial))
    (slot : ContentId × Option Serial) :
    Canonical.slotBounds s p (Arena.slot tree slot) =
      slot.2.bind fun n => (tree n).bind (Canonical.bounds s p) := by
  obtain ⟨id, target⟩ := slot
  cases target with
  | none => rfl
  | some n => cases h : tree n <;> simp [Arena.slot, h, Canonical.slotBounds]

theorem boundsWithin_eq (a : Arena) (s : Scale) (levels : Nat) (p : Point) (n : Serial) :
    a.boundsWithin s levels p n = (a.unfold levels n).bind (Canonical.bounds s p) := by
  induction levels generalizing p n with
  | zero => rfl
  | succ levels ih =>
    have h (p : Point) : a.boundsWithin s levels p =
        fun m => (a.unfold levels m).bind (Canonical.bounds s p) := funext (ih p)
    rw [boundsWithin, unfold, Option.bind_map]
    congr 1
    funext i
    rw [Function.comp, Canonical.bounds, Canonical.slotsBounds_eq_foldl,
      Canonical.slotsBounds_eq_foldl, ← List.foldl_append, ← List.map_append,
      i.overlaySlots_append_underlaySlots, List.foldl_map]
    simp only [slotBounds_slot, h]

/-- The walk covers what the tree covers. -/
theorem bounds_eq (a : Arena) (s : Scale) (p : Point) (n : Serial) :
    a.bounds s p n = (a.view? n).bind (Canonical.bounds s p) :=
  a.boundsWithin_eq s a.instances.size p n

end AppearanceSync.Arena
