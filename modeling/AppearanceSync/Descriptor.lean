import AppearanceSync.Properties

/-!
# Descriptors

A descriptor is an appearance as game code edits it: a tree of visual fields with the appearances
drawn over and under them.  Trees nested deeper than a limit are refused.

The nesting is found with a stack of nodes still to be visited, so it needs no deep recursion;
`Descriptor.nesting` says by recursion on the tree what it should be.
-/

namespace AppearanceSync

inductive AppearanceError
  | depthExceeded (depth max : Nat)
  /-- An appearance that is drawn over or under another has not arrived. -/
  | unresolved (id : ContentId)
  /-- An appearance was sent under a name that is not the hash of its content. -/
  | hashMismatch (id actual : ContentId)
deriving DecidableEq

namespace AppearanceError

def message : AppearanceError → String
  | depthExceeded depth max => s!"overlay nesting depth {depth} exceeds the limit of {max}"
  | unresolved id => s!"overlay {id.text} has not been resolved yet"
  | hashMismatch id actual => s!"appearance sent as {id.text} hashes to {actual.text}"

end AppearanceError

/-- An editable appearance with what is drawn over and under it. -/
structure Descriptor where
  properties : Properties
  overlays : List Descriptor
  underlays : List Descriptor

namespace Descriptor

/-- A descriptor with nothing drawn over or under it. -/
def ofProperties (properties : Properties) : Descriptor := ⟨properties, [], []⟩

instance : Inhabited Descriptor := ⟨ofProperties .plain⟩

def ofIcon (icon : IconId) (iconState : String) : Descriptor :=
  ofProperties { Properties.plain with icon := some icon, iconState := some iconState }

mutual

def decEq : (a b : Descriptor) → Decidable (a = b)
  | ⟨p, overlays, underlays⟩, ⟨q, overlays', underlays'⟩ =>
    if h : p = q then
      match decEqList overlays overlays' with
      | isTrue ho =>
        match decEqList underlays underlays' with
        | isTrue hu => isTrue (by rw [h, ho, hu])
        | isFalse hu => isFalse fun heq => hu (congrArg Descriptor.underlays heq)
      | isFalse ho => isFalse fun heq => ho (congrArg Descriptor.overlays heq)
    else isFalse fun heq => h (congrArg Descriptor.properties heq)

def decEqList : (as bs : List Descriptor) → Decidable (as = bs)
  | [], [] => isTrue rfl
  | [], _ :: _ => isFalse (by simp)
  | _ :: _, [] => isFalse (by simp)
  | a :: as, b :: bs =>
    match decEq a b with
    | isTrue h =>
      match decEqList as bs with
      | isTrue hs => isTrue (by rw [h, hs])
      | isFalse hs => isFalse fun heq => hs (List.cons.inj heq).2
    | isFalse h => isFalse fun heq => h (List.cons.inj heq).1

end

instance : DecidableEq Descriptor := decEq

/-- What is drawn directly over and under the descriptor, overlays first. -/
def children (d : Descriptor) : List Descriptor := d.overlays ++ d.underlays

mutual

/-- The number of descriptors in the tree, this one included. -/
def size : Descriptor → Nat
  | ⟨_, overlays, underlays⟩ => 1 + sizeList overlays + sizeList underlays

def sizeList : List Descriptor → Nat
  | [] => 0
  | d :: ds => d.size + sizeList ds

end

mutual

/-- The longest way down the tree. -/
def nesting : Descriptor → Nat
  | ⟨_, overlays, underlays⟩ => max (nestingList overlays) (nestingList underlays)

/-- One more than the longest way down from any of these, or zero if there are none. -/
def nestingList : List Descriptor → Nat
  | [] => 0
  | d :: ds => max (d.nesting + 1) (nestingList ds)

end

theorem sizeList_append (as bs : List Descriptor) :
    sizeList (as ++ bs) = sizeList as + sizeList bs := by
  induction as with
  | nil => simp [sizeList]
  | cons a as ih => simp [sizeList, ih, Nat.add_assoc]

theorem size_eq (d : Descriptor) : d.size = 1 + sizeList d.children := by
  obtain ⟨properties, overlays, underlays⟩ := d
  simp [size, children, sizeList_append, Nat.add_assoc]

/--
The deepest level of the trees on a stack, of which each entry says on which level its tree
stands, but at least `deepest`.
-/
def deepestOf (deepest : Nat) : List (Descriptor × Nat) → Nat
  | [] => deepest
  | (d, level) :: rest =>
    deepestOf (max deepest level) (d.children.map (fun c => (c, level + 1)) ++ rest)
termination_by stack => sizeList (stack.map (·.1))
decreasing_by
  simp [Function.comp_def, sizeList, sizeList_append, size_eq]

/-- How deeply appearances are nested below this one. -/
def depth (d : Descriptor) : Nat := deepestOf 0 [(d, 0)]

/-- Refuses trees nested deeper than the limit. -/
def validate (d : Descriptor) (max : Nat) : Except AppearanceError Unit :=
  if max < d.depth then .error (.depthExceeded d.depth max) else .ok ()

end Descriptor
end AppearanceSync
