/-!
# Content ids

An appearance is named by a 64-bit hash of its content.  A turf, a tile of the map that keeps one
appearance, is named by the id of that appearance plus one, so the two numberings determine each
other.
-/

namespace AppearanceSync

/-- The lower-case hexadecimal digits of `n`, padded on the left to `width`. -/
def hexDigits (width n : Nat) : String :=
  let digits := Nat.toDigits 16 n
  String.ofList (List.replicate (width - digits.length) '0' ++ digits)

/-- The name of an appearance: the hash of its content. -/
structure ContentId where
  hash : UInt64
deriving DecidableEq

namespace ContentId

instance : Inhabited ContentId := ⟨⟨0⟩⟩

/-- Ids are ordered as numbers. -/
instance : Ord ContentId := ⟨fun a b => compare a.hash b.hash⟩

theorem compare_def (a b : ContentId) : compare a b = compare a.hash b.hash := rfl

instance : Std.TransOrd ContentId where
  eq_swap := Std.OrientedOrd.eq_swap (α := UInt64)
  isLE_trans := Std.TransOrd.isLE_trans (α := UInt64)

instance : Std.LawfulEqOrd ContentId where
  compare_self := Std.ReflOrd.compare_self (α := UInt64)
  eq_of_compare {a b} h := by
    cases a
    cases b
    exact congrArg ContentId.mk (Std.LawfulEqOrd.eq_of_compare (α := UInt64) h)

/-- Sixteen hexadecimal digits. -/
def text (id : ContentId) : String := hexDigits 16 id.hash.toNat

end ContentId

structure TurfId where
  number : UInt64
deriving DecidableEq

namespace TurfId

instance : Ord TurfId := ⟨fun a b => compare a.number b.number⟩

instance : Std.TransOrd TurfId where
  eq_swap := Std.OrientedOrd.eq_swap (α := UInt64)
  isLE_trans := Std.TransOrd.isLE_trans (α := UInt64)

instance : Std.LawfulEqOrd TurfId where
  compare_self := Std.ReflOrd.compare_self (α := UInt64)
  eq_of_compare {a b} h := by
    cases a
    cases b
    exact congrArg TurfId.mk (Std.LawfulEqOrd.eq_of_compare (α := UInt64) h)

/-- The turf that shows the appearance `id`. -/
def ofContent (id : ContentId) : TurfId := ⟨id.hash + 1⟩

def content (turf : TurfId) : ContentId := ⟨turf.number - 1⟩

theorem content_ofContent (id : ContentId) : (ofContent id).content = id := by
  cases id
  simp [ofContent, content]

end TurfId
end AppearanceSync
