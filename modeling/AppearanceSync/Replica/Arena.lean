import AppearanceSync.Icon
import AppearanceSync.Canonical

/-!
# Instances that refer to one another

A client receives appearances one by one, each with the ids of what is drawn over and under it.
The arena keeps every instance that was ever received.  A slot of an instance is empty at first,
is filled at most once with the number of another instance, and stays as it is from then on.

`Arena.view?` unfolds an instance into a tree.  A way down the tree that is longer than the arena
has instances would have to come back to where it was, so no tree is cut off unless an instance
contains itself.  Instances that stand in many slots make the tree far larger than the arena;
what is to be known of a tree is found without making it, by the walks of `Replica.Walk`.
-/

namespace AppearanceSync

/-- A received appearance and what fills its slots, overlays first. -/
structure Instance where
  state : WireState
  targets : List (Option Serial)

namespace Instance

/-- An instance with empty slots. -/
def ofState (state : WireState) : Instance := ⟨state, state.references.map fun _ => none⟩

def id (i : Instance) : ContentId := i.state.contentId

/-- Fills a slot, unless it is filled already. -/
def fill (i : Instance) (slot : Nat) (target : Serial) : Instance :=
  { i with targets := i.targets.modify slot fun present => some (present.getD target) }

/-- The slots, overlays first: the id of each and what fills it. -/
def slots (i : Instance) : List (ContentId × Option Serial) := i.state.references.zip i.targets

def overlaySlots (i : Instance) : List (ContentId × Option Serial) :=
  i.slots.take i.state.overlays.length

def underlaySlots (i : Instance) : List (ContentId × Option Serial) :=
  i.slots.drop i.state.overlays.length

/-- The ids of the empty slots with the slots' positions. -/
def emptySlots (i : Instance) : List (ContentId × Nat) :=
  (i.slots.zipIdx.filter fun s => s.1.2.isNone).map fun s => (s.1.1, s.2)

theorem overlaySlots_append_underlaySlots (i : Instance) :
    i.overlaySlots ++ i.underlaySlots = i.slots :=
  List.take_append_drop _ _

end Instance

/-- Every instance that was ever received, by its number. -/
structure Arena where
  instances : Array Instance

namespace Arena

def empty : Arena := ⟨#[]⟩

def get? (a : Arena) (n : Serial) : Option Instance := a.instances[n]?

/-- The number of the next instance. -/
def next (a : Arena) : Serial := a.instances.size

def push (a : Arena) (i : Instance) : Arena := ⟨a.instances.push i⟩

def fill (a : Arena) (n : Serial) (slot : Nat) (target : Serial) : Arena :=
  ⟨a.instances.modify n fun i => i.fill slot target⟩

/-- What is in a slot, given the tree of each instance. -/
def slot (tree : Serial → Option (Canonical Serial)) (s : ContentId × Option Serial) :
    Slot Serial :=
  match s.2.bind tree with
  | some c => .filled c
  | none => .pending s.1

/-- An instance's tree of at most this many levels. -/
def unfold (a : Arena) : Nat → Serial → Option (Canonical Serial)
  | 0, _ => none
  | levels + 1, n =>
    (a.get? n).map fun i =>
      .mk n i.id i.state.properties (i.overlaySlots.map (slot (a.unfold levels)))
        (i.underlaySlots.map (slot (a.unfold levels)))

def view? (a : Arena) (n : Serial) : Option (Canonical Serial) := a.unfold a.instances.size n

/-- An instance as an icon shows it. -/
def picture? (a : Arena) (n : Serial) : Option (Picture Serial) :=
  (a.get? n).map fun i => ⟨i.id, i.state.properties, n⟩

end Arena
end AppearanceSync
