import AppearanceSync.Proofs.Codec.Laws
import AppearanceSync.Wire.State

/-!
# What the bytes of a wire state say

The bytes of filters, properties and wire states are lawful: they say which state they
write, and no other bytes say the same.  A state fits if its texts and lists have lengths
that eight bytes can count, as has every state that is held in memory.
-/

namespace AppearanceSync

open Codec

/-- The text is short enough for its length to be written. -/
def Text.Fits (s : String) : Prop := (toUtf8 s).length < lengthBound

/-! ## Records -/

namespace Record

variable {α β : Type} {r : Record α} {forth : α → β} {back : β → α} {P : α → Prop} {Q : β → Prop}

theorem decode_bytes_map_eq_ok {bytes rest : List UInt8} {b : β} :
    (r.map forth back).bytes.decode bytes = .ok (b, rest) ↔
      ∃ a, r.bytes.decode bytes = .ok (a, rest) ∧ forth a = b :=
  Codec.decode_map_eq_ok

theorem decode_map_eq_ok {bytes rest : List UInt8} {b : β} :
    (r.map forth back).layout.bytes.decode bytes = .ok (b, rest) ↔
      ∃ a, r.bytes.decode bytes = .ok (a, rest) ∧ forth a = b :=
  Codec.decode_map_eq_ok

/-- A record can be written if its members can. -/
theorem lawful_map (h : r.bytes.Lawful P) (hback : ∀ a, back (forth a) = a)
    (hforth : ∀ b, forth (back b) = b) (hQ : ∀ b, Q b ↔ P (back b)) :
    (r.map forth back).layout.bytes.Lawful Q :=
  (Lawful.map h hback hforth).congr hQ

theorem total_map (h : r.bytes.Total) (hback : ∀ a, back (forth a) = a)
    (hforth : ∀ b, forth (back b) = b) : (r.map forth back).layout.bytes.Total :=
  Lawful.map h hback hforth

end Record

open Record (lawful_map total_map)

/-! ## Single members -/

theorem total_real : Layout.real.bytes.Total := total_u32.map (fun _ => rfl) fun _ => rfl

theorem IconId.total : IconId.layout.bytes.Total := total_u32.map (fun _ => rfl) fun _ => rfl

theorem ContentId.total : ContentId.layout.bytes.Total :=
  total_u64.map (fun _ => rfl) fun _ => rfl

theorem DrawFlags.total : DrawFlags.layout.bytes.Total :=
  total_u16.map (fun _ => rfl) fun _ => rfl

theorem Rgba.total : Rgba.layout.bytes.Total :=
  total_map (total_u8.pair <| total_u8.pair <| total_u8.pair total_u8)
    (fun _ => rfl) fun _ => rfl

theorem ColorMatrix.total : ColorMatrix.layout.bytes.Total :=
  Lawful.map (total_real.vector 20) (fun _ => rfl) fun _ => rfl

theorem PixelOffset.total : PixelOffset.layout.bytes.Total :=
  total_map (total_i32.pair total_i32) (fun _ => rfl) fun _ => rfl

theorem Layout.lawful_text : Layout.text.bytes.Lawful Text.Fits := Codec.lawful_text

/-- A choice of names is written by position. -/
theorem Layout.total_names {α : Type} [DecidableEq α] {all : List α} (hall : ∀ a, a ∈ all)
    (hnodup : all.Nodup) (hcount : all.length ≤ 256 ^ 4) (name : α → String) :
    (Layout.names all name).bytes.Total := by
  refine Lawful.tagged (by rwa [List.length_map]) ?_ ?_
  · intro a rest _
    refine ⟨fun bytes => .ok (a, bytes), ?_, rfl⟩
    rw [List.getElem?_map, Layout.position, List.getElem?_idxOf (hall a)]
    rfl
  · intro i arm harm a bytes rest hread
    rw [List.getElem?_map] at harm
    obtain ⟨b, hb, rfl⟩ := Option.map_eq_some_iff.mp harm
    obtain ⟨rfl, rfl⟩ := Prod.mk.inj (Except.ok.inj hread)
    obtain ⟨hlt, rfl⟩ := List.getElem?_eq_some_iff.mp hb
    exact ⟨trivial, hnodup.idxOf_getElem i hlt, rfl⟩

theorem Direction.total : Direction.layout.bytes.Total :=
  Layout.total_names (fun d => by cases d <;> decide) (by decide) (by decide) _

/-! ## Filters -/

namespace Filter

theorem Mask.lawful : Mask.layout.bytes.Lawful fun f => ∀ s ∈ f.renderSource, Text.Fits s :=
  lawful_map (Lawful.pair total_real <| Lawful.pair total_real <|
    Lawful.pair IconId.total.option <| Lawful.pair Layout.lawful_text.option total_i32)
    (fun _ => rfl) (fun _ => rfl) fun _ => by simp

theorem CenteredBlur.total : CenteredBlur.layout.bytes.Total :=
  total_map (total_real.pair <| total_real.pair total_real) (fun _ => rfl) fun _ => rfl

theorem Bloom.total : Bloom.layout.bytes.Total :=
  total_map (Rgba.total.pair <| total_real.pair <| total_real.pair total_u8)
    (fun _ => rfl) fun _ => rfl

theorem Blur.total : Blur.layout.bytes.Total := total_map total_real (fun _ => rfl) fun _ => rfl

theorem Recolor.total : Recolor.layout.bytes.Total :=
  total_map (ColorMatrix.total.pair total_u8) (fun _ => rfl) fun _ => rfl

theorem Displacement.lawful :
    Displacement.layout.bytes.Lawful fun f => ∀ s ∈ f.renderSource, Text.Fits s :=
  lawful_map (Lawful.pair total_real <| Lawful.pair total_real <| Lawful.pair total_real <|
    Lawful.pair IconId.total.option Layout.lawful_text.option)
    (fun _ => rfl) (fun _ => rfl) fun _ => by simp

theorem DropShadow.total : DropShadow.layout.bytes.Total :=
  total_map (total_real.pair <| total_real.pair <| total_real.pair <| total_real.pair Rgba.total)
    (fun _ => rfl) fun _ => rfl

theorem Layer.lawful : Layer.layout.bytes.Lawful fun f => ∀ s ∈ f.renderSource, Text.Fits s :=
  lawful_map (Lawful.pair total_real <| Lawful.pair total_real <|
    Lawful.pair IconId.total.option <| Lawful.pair Layout.lawful_text.option <|
    Lawful.pair total_i32 Rgba.total) (fun _ => rfl) (fun _ => rfl) fun _ => by simp

theorem MotionBlur.total : MotionBlur.layout.bytes.Total :=
  total_map (total_real.pair total_real) (fun _ => rfl) fun _ => rfl

theorem Outline.total : Outline.layout.bytes.Total :=
  total_map (total_real.pair <| Rgba.total.pair total_i32) (fun _ => rfl) fun _ => rfl

theorem Rays.total : Rays.layout.bytes.Total :=
  total_map (total_real.pair <| total_real.pair <| total_real.pair <| Rgba.total.pair <|
    total_real.pair <| total_real.pair <| total_real.pair <| total_real.pair total_i32)
    (fun _ => rfl) fun _ => rfl

theorem Ripple.total : Ripple.layout.bytes.Total :=
  total_map (total_real.pair <| total_real.pair <| total_real.pair <| total_real.pair <|
    total_real.pair <| total_real.pair total_i32) (fun _ => rfl) fun _ => rfl

theorem Wave.total : Wave.layout.bytes.Total :=
  total_map (total_real.pair <| total_real.pair <| total_real.pair <| total_real.pair total_i32)
    (fun _ => rfl) fun _ => rfl

/-- The name of the picture that the filter takes from elsewhere. -/
def source? : Filter → Option String
  | alpha f => f.renderSource
  | displace f => f.renderSource
  | layer f => f.renderSource
  | _ => none

/-- The text of a filter is short enough, if it has one. -/
def Fits (f : Filter) : Prop := ∀ s ∈ f.source?, Text.Fits s

end Filter

namespace Branch

variable {α β : Type} {l : Layout β} {P : β → Prop} {Q : α → Prop} {write : α → Choice} {i : ℕ}

theorem readBytes_holding_eq_ok {name : String} {wrap : β → α} {bytes rest : List UInt8} {a : α} :
    (holding name l wrap).readBytes bytes = .ok (a, rest) ↔
      ∃ b, l.bytes.decode bytes = .ok (b, rest) ∧ wrap b = a := by
  constructor
  · intro h
    obtain ⟨⟨b, r⟩, hb, ha⟩ := bind_eq_ok.mp h
    obtain ⟨rfl, rfl⟩ := Prod.mk.inj (Except.ok.inj ha)
    exact ⟨b, hb, rfl⟩
  · rintro ⟨b, hb, rfl⟩
    exact bind_eq_ok.mpr ⟨(b, rest), hb, rfl⟩

theorem readBytes_holding (h : l.bytes.Lawful P) (name : String) (wrap : β → α) {b : β}
    (hP : P b) (rest : List UInt8) :
    (holding name l wrap).readBytes (l.bytes.encode b ++ rest) = .ok (wrap b, rest) :=
  readBytes_holding_eq_ok.mpr ⟨b, h.decode_encode hP rest, rfl⟩

/-- The branch reads only values of the class, and only what is written with its number. -/
def Exact (write : α → Choice) (Q : α → Prop) (b : Branch α) (i : ℕ) : Prop :=
  ∀ a bytes rest, b.readBytes bytes = .ok (a, rest) →
    Q a ∧ (write a).index = i ∧ bytes = (write a).bytes ++ rest

theorem exact_holding (h : l.bytes.Lawful P) {name : String} {wrap : β → α}
    (hwrite : ∀ b, write (wrap b) = Branch.write i name l b) (hQ : ∀ b, P b → Q (wrap b)) :
    (holding name l wrap).Exact write Q i := by
  intro a bytes rest ha
  obtain ⟨b, hb, rfl⟩ := readBytes_holding_eq_ok.mp ha
  obtain ⟨hP, rfl⟩ := (h b bytes rest).mp hb
  rw [hwrite]
  exact ⟨hQ b hP, rfl, rfl⟩

theorem exact_unit {name : String} {a : α} (hwrite : write a = writeUnit i name) (hQ : Q a) :
    (unit name a).Exact write Q i := by
  intro a' bytes rest ha
  obtain ⟨rfl, rfl⟩ := Prod.mk.inj (Except.ok.inj ha)
  rw [hwrite]
  exact ⟨hQ, rfl, rfl⟩

end Branch

/-- A choice is lawful if each of its values is read by the branch of its number, and each
branch is exact. -/
theorem Layout.lawful_choice {α : Type} {write : α → Choice} {branches : List (Branch α)}
    {Q : α → Prop} (hcount : branches.length ≤ 256 ^ 4)
    (hread : ∀ a rest, Q a → ∃ b, branches[(write a).index]? = some b ∧
      b.readBytes ((write a).bytes ++ rest) = .ok (a, rest))
    (hexact : ∀ b ∈ branches.zipIdx, b.1.Exact write Q b.2) :
    (Layout.choice write branches).bytes.Lawful Q := by
  refine Lawful.tagged (by rwa [List.length_map]) ?_ ?_
  · intro a rest ha
    obtain ⟨b, hb, hbytes⟩ := hread a rest ha
    refine ⟨b.readBytes, ?_, hbytes⟩
    rw [List.getElem?_map, hb]
    rfl
  · intro i arm harm
    rw [List.getElem?_map] at harm
    obtain ⟨b, hb, rfl⟩ := Option.map_eq_some_iff.mp harm
    exact hexact (b, i) (List.mem_zipIdx_iff_getElem?.mpr hb)

namespace Filter

open Branch (exact_holding exact_unit readBytes_holding)

theorem exact_branches : ∀ b ∈ branches.zipIdx, b.1.Exact choice Fits b.2 := by
  have hnone (f : Filter) (h : f.source? = none) : f.Fits := by
    intro s hs
    rw [h] at hs
    cases hs
  simp only [branches, List.zipIdx_cons, List.zipIdx_nil, List.forall_mem_cons]
  refine ⟨?_, ?_, ?_, ?_, ?_, ?_, ?_, ?_, ?_, ?_, ?_, ?_, ?_, ?_, ?_, by simp⟩
  · exact exact_holding Mask.lawful (fun _ => rfl) fun _ h => h
  · exact exact_holding CenteredBlur.total (fun _ => rfl) fun _ _ => hnone _ rfl
  · exact exact_holding Bloom.total (fun _ => rfl) fun _ _ => hnone _ rfl
  · exact exact_holding Blur.total (fun _ => rfl) fun _ _ => hnone _ rfl
  · exact exact_holding Recolor.total (fun _ => rfl) fun _ _ => hnone _ rfl
  · exact exact_holding Displacement.lawful (fun _ => rfl) fun _ h => h
  · exact exact_holding DropShadow.total (fun _ => rfl) fun _ _ => hnone _ rfl
  · exact exact_holding Layer.lawful (fun _ => rfl) fun _ h => h
  · exact exact_holding MotionBlur.total (fun _ => rfl) fun _ _ => hnone _ rfl
  · exact exact_holding Outline.total (fun _ => rfl) fun _ _ => hnone _ rfl
  · exact exact_holding CenteredBlur.total (fun _ => rfl) fun _ _ => hnone _ rfl
  · exact exact_holding Rays.total (fun _ => rfl) fun _ _ => hnone _ rfl
  · exact exact_holding Ripple.total (fun _ => rfl) fun _ _ => hnone _ rfl
  · exact exact_holding Wave.total (fun _ => rfl) fun _ _ => hnone _ rfl
  · exact exact_unit rfl (hnone _ rfl)

theorem lawful : layout.bytes.Lawful Fits := by
  refine Layout.lawful_choice (by decide) ?_ exact_branches
  intro f rest hf
  cases f with
  | alpha f => exact ⟨_, rfl, readBytes_holding Mask.lawful _ _ hf rest⟩
  | angularBlur f => exact ⟨_, rfl, readBytes_holding CenteredBlur.total _ _ trivial rest⟩
  | bloom f => exact ⟨_, rfl, readBytes_holding Bloom.total _ _ trivial rest⟩
  | blur f => exact ⟨_, rfl, readBytes_holding Blur.total _ _ trivial rest⟩
  | color f => exact ⟨_, rfl, readBytes_holding Recolor.total _ _ trivial rest⟩
  | displace f => exact ⟨_, rfl, readBytes_holding Displacement.lawful _ _ hf rest⟩
  | dropShadow f => exact ⟨_, rfl, readBytes_holding DropShadow.total _ _ trivial rest⟩
  | layer f => exact ⟨_, rfl, readBytes_holding Layer.lawful _ _ hf rest⟩
  | motionBlur f => exact ⟨_, rfl, readBytes_holding MotionBlur.total _ _ trivial rest⟩
  | outline f => exact ⟨_, rfl, readBytes_holding Outline.total _ _ trivial rest⟩
  | radialBlur f => exact ⟨_, rfl, readBytes_holding CenteredBlur.total _ _ trivial rest⟩
  | rays f => exact ⟨_, rfl, readBytes_holding Rays.total _ _ trivial rest⟩
  | ripple f => exact ⟨_, rfl, readBytes_holding Ripple.total _ _ trivial rest⟩
  | wave f => exact ⟨_, rfl, readBytes_holding Wave.total _ _ trivial rest⟩
  | greyscale => exact ⟨_, rfl, rfl⟩

end Filter

/-! ## States -/

/-- The texts and the list of filters are short enough for their lengths to be written. -/
structure Properties.Fits (p : Properties) : Prop where
  iconState : ∀ s ∈ p.iconState, Text.Fits s
  filterCount : p.filters.length < lengthBound
  filters : ∀ f ∈ p.filters, f.Fits

theorem Properties.lawful : Properties.layout.bytes.Lawful Properties.Fits :=
  lawful_map (Lawful.pair IconId.total.option <| Lawful.pair Layout.lawful_text.option <|
    Lawful.pair Direction.total <| Lawful.pair total_real <| Lawful.pair total_i16 <|
    Lawful.pair PixelOffset.total <| Lawful.pair Rgba.total <|
    Lawful.pair ColorMatrix.total.option <| Lawful.pair total_u8 <|
    Lawful.pair DrawFlags.total Filter.lawful.list) (fun _ => rfl) (fun _ => rfl)
    fun p => by
      constructor
      · rintro ⟨hstate, hcount, hfilters⟩
        exact ⟨trivial, hstate, trivial, trivial, trivial, trivial, trivial, trivial, trivial,
          trivial, hcount, hfilters⟩
      · rintro ⟨-, hstate, -, -, -, -, -, -, -, -, hcount, hfilters⟩
        exact ⟨hstate, hcount, hfilters⟩

/-- All lengths in the state can be written. -/
structure WireState.Fits (s : WireState) : Prop where
  properties : s.properties.Fits
  overlayCount : s.overlays.length < lengthBound
  underlayCount : s.underlays.length < lengthBound

theorem WireState.lawful : WireState.layout.bytes.Lawful WireState.Fits :=
  lawful_map (Lawful.pair Properties.lawful <| Lawful.pair ContentId.total.list
    ContentId.total.list) (fun _ => rfl) (fun _ => rfl) fun s => by
      constructor
      · rintro ⟨hproperties, hover, hunder⟩
        exact ⟨hproperties, ⟨hover, fun _ _ => trivial⟩, hunder, fun _ _ => trivial⟩
      · rintro ⟨hproperties, ⟨hover, -⟩, hunder, -⟩
        exact ⟨hproperties, hover, hunder⟩

end AppearanceSync
