import AppearanceSync.Properties
import AppearanceSync.Span

/-!
# Messages from the server to a session

A session first receives a `Snapshot` of every registered appearance.  From then on it is told of
each appearance that is registered or removed and of each animation, in the order in which they
happened.

A snapshot keeps its entries in ascending order of their ids, each id once, so that equal tables
are equal values.
-/

namespace AppearanceSync

/-- The bits that name an entity. -/
structure EntityId where
  bits : UInt64
deriving DecidableEq

/-- What an animation or a change of appearance applies to. -/
inductive Target
  | entity (id : EntityId)
  | turf (id : TurfId)
deriving DecidableEq

/-- The shape of an animation's progress over time. -/
inductive Easing
  | linear
  | sine
  | circular
  | cubic
  | bounce
  | elastic
  | back
  | quad
  | jump
deriving DecidableEq

namespace Easing

/-- The curves in their numbered order. -/
def all : List Easing := [linear, sine, circular, cubic, bounce, elastic, back, quad, jump]

/-- The name on the wire. -/
def name : Easing → String
  | linear => "Linear"
  | sine => "Sine"
  | circular => "Circular"
  | cubic => "Cubic"
  | bounce => "Bounce"
  | elastic => "Elastic"
  | back => "Back"
  | quad => "Quad"
  | jump => "Jump"

end Easing

/-- The timing of one animation. -/
structure PlayParams where
  duration : Span
  easing : Easing
  /-- How often it plays; for ever when negative, once when zero. -/
  loops : Int32
  flags : PlayFlags
  delayMillis : Int32
  /-- Whether it waits for the animations before it instead of replacing them. -/
  chain : Bool
deriving DecidableEq

namespace PlayParams

/-- One linear play of a tenth of a second, at once. -/
def standard : PlayParams where
  duration := .ofMillis 100
  easing := .linear
  loops := 1
  flags := ⟨0⟩
  delayMillis := 0
  chain := false

instance : Inhabited PlayParams := ⟨standard⟩

end PlayParams

/-- An appearance has been registered. -/
structure Added where
  id : ContentId
  appearance : WireState
deriving DecidableEq

/-- An appearance is no longer registered. -/
structure Removed where
  id : ContentId
deriving DecidableEq

/-- A target is to be animated towards an appearance. -/
structure Animate where
  target : Target
  appearance : ContentId
  params : PlayParams
deriving DecidableEq

/-- A table of appearances by id, in ascending order. -/
structure Snapshot where
  entries : List (ContentId × WireState)
  ascending : entries.Pairwise fun a b => a.1.hash < b.1.hash
deriving DecidableEq

namespace Snapshot

def empty : Snapshot := ⟨[], .nil⟩

/-- Puts an entry in its place, over one of the same id. -/
def insertEntry (id : ContentId) (state : WireState) :
    List (ContentId × WireState) → List (ContentId × WireState)
  | [] => [(id, state)]
  | entry :: rest =>
    if id.hash < entry.1.hash then (id, state) :: entry :: rest
    else if entry.1.hash < id.hash then entry :: insertEntry id state rest
    else (id, state) :: rest

theorem mem_insertEntry {id : ContentId} {state : WireState}
    {entries : List (ContentId × WireState)} {entry : ContentId × WireState}
    (h : entry ∈ insertEntry id state entries) : entry = (id, state) ∨ entry ∈ entries := by
  induction entries with
  | nil => exact Or.inl (by simpa [insertEntry] using h)
  | cons head rest ih =>
      rw [insertEntry] at h
      split at h
      · simpa using h
      · split at h
        · rcases List.mem_cons.mp h with rfl | h
          · simp
          · rcases ih h with rfl | h
            · simp
            · simp [h]
        · rcases List.mem_cons.mp h with rfl | h
          · simp
          · simp [h]

theorem pairwise_insertEntry (id : ContentId) (state : WireState)
    {entries : List (ContentId × WireState)}
    (h : entries.Pairwise fun a b => a.1.hash < b.1.hash) :
    (insertEntry id state entries).Pairwise fun a b => a.1.hash < b.1.hash := by
  induction entries with
  | nil => simp [insertEntry]
  | cons head rest ih =>
      obtain ⟨hhead, hrest⟩ := List.pairwise_cons.mp h
      rw [insertEntry]
      split
      · rename_i hlt
        refine List.pairwise_cons.mpr ⟨?_, h⟩
        intro entry hentry
        rcases List.mem_cons.mp hentry with rfl | hentry
        · exact hlt
        · exact UInt64.lt_trans hlt (hhead entry hentry)
      · rename_i hle
        split
        · rename_i hlt
          refine List.pairwise_cons.mpr ⟨?_, ih hrest⟩
          intro entry hentry
          rcases mem_insertEntry hentry with rfl | hentry
          · exact hlt
          · exact hhead entry hentry
        · rename_i hge
          have heq : id.hash = head.1.hash :=
            UInt64.le_antisymm (UInt64.not_lt.mp hge) (UInt64.not_lt.mp hle)
          refine List.pairwise_cons.mpr ⟨?_, hrest⟩
          intro entry hentry
          simpa [heq] using hhead entry hentry

/-- The table with this entry, which takes the place of one with the same id. -/
def insert (s : Snapshot) (id : ContentId) (state : WireState) : Snapshot :=
  ⟨insertEntry id state s.entries, pairwise_insertEntry id state s.ascending⟩

/-- The table of these entries; of equal ids the last counts. -/
def ofList (entries : List (ContentId × WireState)) : Snapshot :=
  entries.foldl (fun s entry => s.insert entry.1 entry.2) empty

def size (s : Snapshot) : Nat := s.entries.length

def isEmpty (s : Snapshot) : Bool := s.entries.isEmpty

/-- The ids in ascending order. -/
def ids (s : Snapshot) : List ContentId := s.entries.map (·.1)

end Snapshot

/-- Everything that the server tells a session. -/
inductive Message
  | snapshot (table : Snapshot)
  | added (event : Added)
  | removed (event : Removed)
  | animate (event : Animate)
deriving DecidableEq

namespace Message

def kind : Message → String
  | snapshot _ => "snapshot"
  | added _ => "added"
  | removed _ => "removed"
  | animate _ => "animate"

end Message
end AppearanceSync
