import AppearanceSync.Descriptor
import AppearanceSync.Wire.State

/-!
# Canonical appearances

A canonical appearance is named by the hash of its wire state.  What is drawn over and under it
stands in slots: a slot always has an id, and is filled once the appearance of that id is known.

Each appearance carries a key, which tells apart two appearances of equal content where that
matters and is trivial where it does not.
-/

namespace AppearanceSync

mutual

/-- An appearance with its id, its key and its slots in drawing order. -/
inductive Canonical (κ : Type)
  | mk (key : κ) (id : ContentId) (properties : Properties) (overlays underlays : List (Slot κ))

/-- A place for an appearance that is drawn over or under another. -/
inductive Slot (κ : Type)
  | pending (id : ContentId)
  | filled (appearance : Canonical κ)

end

/-- The number of an instance: no two instances that were ever made in one place share it. -/
abbrev Serial := Nat

/-- A holder's view of an instance. -/
abbrev Handle := Canonical Serial

namespace Canonical

variable {κ : Type}

/-- What tells this appearance from others of equal content. -/
def key : Canonical κ → κ
  | mk key _ _ _ _ => key

/-- The hash of its wire state. -/
def id : Canonical κ → ContentId
  | mk _ id _ _ _ => id

def properties : Canonical κ → Properties
  | mk _ _ properties _ _ => properties

def overlays : Canonical κ → List (Slot κ)
  | mk _ _ _ overlays _ => overlays

def underlays : Canonical κ → List (Slot κ)
  | mk _ _ _ _ underlays => underlays

/-- All slots, overlays first. -/
def slots (a : Canonical κ) : List (Slot κ) := a.overlays ++ a.underlays

end Canonical

namespace Slot

variable {κ : Type}

def id : Slot κ → ContentId
  | pending id => id
  | filled a => a.id

def appearance? : Slot κ → Option (Canonical κ)
  | pending _ => none
  | filled a => some a

def isFilled (s : Slot κ) : Bool := s.appearance?.isSome

end Slot

namespace Canonical

variable {κ : Type}

def partsOf (slots : List (Slot κ)) : List (Canonical κ) := slots.filterMap Slot.appearance?

/-- The appearances in the slots that are filled, in drawing order. -/
def parts (a : Canonical κ) : List (Canonical κ) := partsOf a.slots

/-- An appearance of known parts, named by the hash of its wire state. -/
def ofParts (key : κ) (properties : Properties) (overlays underlays : List (Canonical κ)) :
    Canonical κ :=
  let state : WireState := ⟨properties, overlays.map id, underlays.map id⟩
  mk key state.contentId properties (overlays.map .filled) (underlays.map .filled)

def toState (a : Canonical κ) : WireState :=
  ⟨a.properties, a.overlays.map Slot.id, a.underlays.map Slot.id⟩

mutual

/-- Whether every slot is filled, at every level. -/
def isFullyResolved : Canonical κ → Bool
  | mk _ _ _ overlays underlays => allResolved overlays && allResolved underlays

def allResolved : List (Slot κ) → Bool
  | [] => true
  | slot :: slots => slotResolved slot && allResolved slots

def slotResolved : Slot κ → Bool
  | .pending _ => false
  | .filled a => a.isFullyResolved

end

mutual

/-- An editable copy, or the first slot in drawing order that is not filled. -/
def toDescriptor : Canonical κ → Except AppearanceError Descriptor
  | mk _ _ properties overlays underlays =>
    match slotDescriptors overlays with
    | .error error => .error error
    | .ok overlays =>
      match slotDescriptors underlays with
      | .error error => .error error
      | .ok underlays => .ok ⟨properties, overlays, underlays⟩

def slotDescriptors : List (Slot κ) → Except AppearanceError (List Descriptor)
  | [] => .ok []
  | slot :: slots =>
    match slotDescriptor slot with
    | .error error => .error error
    | .ok d =>
      match slotDescriptors slots with
      | .error error => .error error
      | .ok ds => .ok (d :: ds)

def slotDescriptor : Slot κ → Except AppearanceError Descriptor
  | .pending id => .error (.unresolved id)
  | .filled a => a.toDescriptor

end

theorem allResolved_eq_all (slots : List (Slot κ)) : allResolved slots = slots.all slotResolved := by
  induction slots with
  | nil => rfl
  | cons slot slots ih => rw [allResolved, ih, List.all_cons]

theorem slotDescriptors_eq_mapM (slots : List (Slot κ)) :
    slotDescriptors slots = slots.mapM slotDescriptor := by
  induction slots with
  | nil => rfl
  | cons slot slots ih =>
    rw [slotDescriptors, ih, List.mapM_cons]
    cases slotDescriptor slot with
    | error error => rfl
    | ok d => cases slots.mapM slotDescriptor <;> rfl

def defaultMaxDepth : Nat := 16

end Canonical

namespace Descriptor

mutual

/-- The canonical form of a tree, with no regard to its depth. -/
def canonical : Descriptor → Canonical Unit
  | ⟨properties, overlays, underlays⟩ =>
    .ofParts () properties (canonicalList overlays) (canonicalList underlays)

def canonicalList : List Descriptor → List (Canonical Unit)
  | [] => []
  | d :: ds => d.canonical :: canonicalList ds

end

/-- The canonical form of a tree that is not nested too deeply. -/
def canonicalize (d : Descriptor) (max : Nat) : Except AppearanceError (Canonical Unit) := do
  d.validate max
  .ok d.canonical

end Descriptor
end AppearanceSync
