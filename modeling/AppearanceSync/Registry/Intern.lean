import AppearanceSync.MissingAppearance
import AppearanceSync.Registry.Basic

/-!
# Interning

Interning a descriptor gives the registered instance of its content, which is made and announced
if there is none.  What is drawn over and under an appearance is interned before the appearance
itself, so it is announced before anything refers to it.
-/

namespace AppearanceSync

namespace Registry

/-- Registers an instance that nobody holds under an id of its own. -/
def register (r : Registry) (a : Handle) : Registry :=
  let r := r.publish (.added ⟨a.id, a.toState⟩)
  { r with
    entries := r.entries.insert a.id ⟨a, 1⟩
    nextSerial := r.nextSerial + 1
    interned := r.interned + 1 }

/--
The instance with these parts.  The handles of the parts are passed on to it if it is made, and
are given up if an instance of this content is registered already.
-/
def internParts (r : Registry) (properties : Properties) (overlays underlays : List Handle) :
    Registry × Handle :=
  let candidate := Canonical.ofParts r.nextSerial properties overlays underlays
  match r.find? candidate.id with
  | some a =>
    let r := { r.retain a with deduplicated := r.deduplicated + 1 }
    ((r.releaseAll overlays).releaseAll underlays, a)
  | none => (r.register candidate, candidate)

mutual

/-- Interns a tree, from its leaves up, with no regard to its depth. -/
def internTree (r : Registry) : Descriptor → Registry × Handle
  | ⟨properties, overlays, underlays⟩ =>
    let (r, overlays) := r.internTrees overlays
    let (r, underlays) := r.internTrees underlays
    r.internParts properties overlays underlays

def internTrees (r : Registry) : List Descriptor → Registry × List Handle
  | [] => (r, [])
  | d :: ds =>
    let (r, a) := r.internTree d
    let (r, as) := r.internTrees ds
    (r, a :: as)

end

/-- A handle to the instance of a descriptor's content, unless it is nested too deeply. -/
def intern (r : Registry) (d : Descriptor) : Registry × Except AppearanceError Handle :=
  match d.validate r.maxDepth with
  | .error e => (r, .error e)
  | .ok () =>
    let (r, a) := r.internTree d
    (r, .ok a)

/-- Interns the end of an animation and announces the animation. -/
def animate (r : Registry) (target : Target) (d : Descriptor) (params : PlayParams) :
    Registry × Except AppearanceError Handle :=
  match r.intern d with
  | (r, .error e) => (r, .error e)
  | (r, .ok a) => (r.publish (.animate ⟨target, a.id, params⟩), .ok a)

/-- The plain appearance, which a registry holds from its beginning on. -/
def standard : Handle := .ofParts 0 .plain [] []

/-- A registry that holds the plain appearance. -/
def start (maxDepth : Nat) : Registry := (empty maxDepth).register standard

/-- Looks up an id that the caller knows to be registered. -/
def demand (r : Registry) (id : ContentId) : Registry × Except MissingAppearance Handle :=
  match r.lookup id with
  | (r, some a) => (r, .ok a)
  | (r, none) => (r, .error (.deleted id))

end Registry
end AppearanceSync
