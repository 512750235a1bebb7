import AppearanceSync.Proofs.Wire.Message
import Mathlib.Algebra.Order.BigOperators.Group.List
import Mathlib.Algebra.Order.Group.Nat

/-!
# Values of few bytes

A length is counted in eight bytes, so only a value of very many bytes could have a
length that is not counted.  A value that is written with fewer bytes than that fits.
-/

namespace AppearanceSync

namespace Codec

variable {α β : Type} {c : Codec α} {d : Codec β} {P : α → Prop} {Q : β → Prop}

/-- A value has the property if the number of its bytes can be counted in eight bytes. -/
def Sized (c : Codec α) (P : α → Prop) : Prop :=
  ∀ a, (c.encode a).length < lengthBound → P a

theorem sized_true : c.Sized fun _ => True := fun _ _ => trivial

theorem Sized.pair (h : c.Sized P) (h' : d.Sized Q) :
    (c.pair d).Sized fun p => P p.1 ∧ Q p.2 := by
  intro p hp
  have hlength : ((c.pair d).encode p).length = (c.encode p.1).length + (d.encode p.2).length :=
    List.length_append
  exact ⟨h p.1 (by omega), h' p.2 (by omega)⟩

theorem Sized.option (h : c.Sized P) : c.option.Sized fun o => ∀ a ∈ o, P a := by
  rintro o ho a ⟨⟩
  exact h a (Nat.lt_of_succ_lt ho)

theorem length_encode_list (c : Codec α) (as : List α) :
    (c.list.encode as).length = 8 + (as.map fun a => (c.encode a).length).sum := by
  change (littleEndian 8 as.length ++ as.flatMap c.encode).length = _
  rw [List.length_append, length_littleEndian, List.length_flatMap]

/-- A list has no more entries than bytes, if no entry is written with no byte at all. -/
theorem Sized.list (h : c.Sized P) (hpos : ∀ a, 0 < (c.encode a).length) :
    c.list.Sized fun as => as.length < lengthBound ∧ ∀ a ∈ as, P a := by
  intro as has
  rw [length_encode_list] at has
  have hcount : as.length ≤ (as.map fun a => (c.encode a).length).sum := by
    have hmap := List.length_le_sum_of_one_le (as.map fun a => (c.encode a).length) (by
      intro n hn
      obtain ⟨a, -, rfl⟩ := List.mem_map.mp hn
      exact hpos a)
    rwa [List.length_map] at hmap
  refine ⟨by omega, fun a ha => h a ?_⟩
  have hmem : (c.encode a).length ∈ as.map fun a => (c.encode a).length :=
    List.mem_map.mpr ⟨a, ha, rfl⟩
  have hentry := List.single_le_sum (fun _ _ => Nat.zero_le _) _ hmem
  omega

/-- Every alternative is written with its number first. -/
theorem length_encode_tagged (index : α → ℕ) (body : α → List UInt8) (arms : List (ByteReader α))
    (a : α) : ((tagged index body arms).encode a).length = 4 + (body a).length := by
  change (littleEndian 4 (index a) ++ body a).length = _
  rw [List.length_append, length_littleEndian]

end Codec

open Codec

theorem Record.sized_map {α β : Type} {r : Record α} {forth : α → β} {back : β → α}
    {P : α → Prop} {Q : β → Prop} (h : r.bytes.Sized P) (hQ : ∀ b, P (back b) → Q b) :
    (r.map forth back).layout.bytes.Sized Q :=
  fun b hb => hQ b (h (back b) hb)

open Record (sized_map)

theorem Layout.sized_text : Layout.text.bytes.Sized Text.Fits := by
  intro s hs
  have hlength : (Layout.text.bytes.encode s).length = 8 + (Text.toUtf8 s).length := by
    change (littleEndian 8 _ ++ Text.toUtf8 s).length = _
    rw [List.length_append, length_littleEndian]
  rw [Text.Fits]
  omega

namespace Filter

theorem Mask.sized : Mask.layout.bytes.Sized fun f => ∀ s ∈ f.renderSource, Text.Fits s :=
  sized_map (Sized.pair sized_true <| Sized.pair sized_true <| Sized.pair sized_true <|
    Layout.sized_text.option.pair sized_true) fun _ h => h.2.2.2.1

theorem Displacement.sized :
    Displacement.layout.bytes.Sized fun f => ∀ s ∈ f.renderSource, Text.Fits s :=
  sized_map (Sized.pair sized_true <| Sized.pair sized_true <| Sized.pair sized_true <|
    Sized.pair sized_true Layout.sized_text.option) fun _ h => h.2.2.2.2

theorem Layer.sized : Layer.layout.bytes.Sized fun f => ∀ s ∈ f.renderSource, Text.Fits s :=
  sized_map (Sized.pair sized_true <| Sized.pair sized_true <| Sized.pair sized_true <|
    Layout.sized_text.option.pair <| Sized.pair sized_true sized_true) fun _ h => h.2.2.2.1

theorem length_encode (f : Filter) : (layout.bytes.encode f).length = 4 + (choice f).bytes.length :=
  length_encode_tagged _ _ _ f

theorem sized : layout.bytes.Sized Fits := by
  intro f hf
  rw [length_encode] at hf
  cases f with
  | alpha f => exact Mask.sized f (Nat.lt_of_le_of_lt (Nat.le_add_left _ 4) hf)
  | displace f => exact Displacement.sized f (Nat.lt_of_le_of_lt (Nat.le_add_left _ 4) hf)
  | layer f => exact Layer.sized f (Nat.lt_of_le_of_lt (Nat.le_add_left _ 4) hf)
  | _ => exact fun s hs => nomatch hs

end Filter

theorem ContentId.length_encode (id : ContentId) : (layout.bytes.encode id).length = 8 :=
  length_littleEndian 8 id.hash.toNat

theorem ContentId.sized : layout.bytes.Sized fun _ => True := sized_true

theorem Properties.sized : Properties.layout.bytes.Sized Properties.Fits := by
  have hfilters := Filter.sized.list fun f => by rw [Filter.length_encode]; omega
  refine sized_map (Sized.pair sized_true <| Layout.sized_text.option.pair <|
    Sized.pair sized_true <| Sized.pair sized_true <| Sized.pair sized_true <|
    Sized.pair sized_true <| Sized.pair sized_true <| Sized.pair sized_true <|
    Sized.pair sized_true <| Sized.pair sized_true hfilters) fun p h => ?_
  obtain ⟨-, hstate, -, -, -, -, -, -, -, -, hcount, hall⟩ := h
  exact ⟨hstate, hcount, hall⟩

theorem WireState.sized : WireState.layout.bytes.Sized WireState.Fits := by
  have hids := ContentId.sized.list fun id => by
    rw [ContentId.length_encode]
    decide
  exact sized_map (Properties.sized.pair <| hids.pair hids) fun _ h => ⟨h.1, h.2.1.1, h.2.2.1⟩

theorem Snapshot.sized : Snapshot.layout.bytes.Sized fun table => Listable table.entries := by
  have hentries := (ContentId.sized.pair WireState.sized).list fun e => by
    have hlength : ((ContentId.layout.bytes.pair WireState.layout.bytes).encode e).length = _ :=
      List.length_append
    rw [hlength, ContentId.length_encode]
    omega
  intro table hb
  obtain ⟨hcount, hall⟩ := hentries table.entries hb
  exact ⟨hcount, fun e he => (hall e he).2⟩

theorem Added.sized : Added.layout.bytes.Sized fun e => e.appearance.Fits :=
  sized_map (Sized.pair sized_true WireState.sized) fun _ h => h.2

/-- A message that is written with few enough bytes can be read back. -/
theorem Message.sized : Message.layout.bytes.Sized Fits := by
  intro m hm
  have hlength := length_encode_tagged _ _ _ m ▸ hm
  cases m with
  | snapshot table => exact Snapshot.sized table (Nat.lt_of_le_of_lt (Nat.le_add_left _ 4) hlength)
  | added event => exact Added.sized event (Nat.lt_of_le_of_lt (Nat.le_add_left _ 4) hlength)
  | removed event => trivial
  | animate event => trivial

end AppearanceSync
