import AppearanceSync.Proofs.Hash
import AppearanceSync.Proofs.Wire.Laws

/-!
# Edits of one member

The bytes of a state hold its members one after another.  A member of fixed width takes
at most four bytes, and so does each entry of a colour map.  So a state of which one such
member is edited has bytes that differ in one window, and another id.

`Member` names the members of the visual fields and of the filters by their types, and
`members` lists them in the order of the bytes.
-/

namespace AppearanceSync

open Codec Hash

namespace Codec

variable {α : Type} {c : Codec α} {a b : α}

/-- Values of a fixed width of at most four bytes differ in one window. -/
theorem windowApart_encode {width : ℕ} (h : c.Total)
    (hlength : ∀ a, (c.encode a).length = width) (hwidth : width ≤ 4) (hne : a ≠ b) :
    WindowApart (c.encode a) (c.encode b) := by
  refine WindowApart.of_short (mt (h.eq_of_encode_eq trivial trivial) hne) ?_ ?_
  · rw [hlength, hlength]
  · rwa [hlength]

theorem windowApart_list (h : WindowApart (c.encode a) (c.encode b))
    (before after : List α) :
    WindowApart (c.list.encode (before ++ a :: after)) (c.list.encode (before ++ b :: after)) := by
  have hlength : (before ++ a :: after).length = (before ++ b :: after).length := by simp
  change WindowApart (littleEndian 8 _ ++ List.flatMap _ _) (littleEndian 8 _ ++ List.flatMap _ _)
  rw [hlength, List.flatMap_append, List.flatMap_append, List.flatMap_cons, List.flatMap_cons]
  exact ((h.append_right _).append_left _).append_left _

end Codec

/-! ## Members -/

/-- A member of a filter or of the visual fields. -/
inductive Member
  | icon (icon : Option IconId)
  | text (text : Option String)
  | direction (direction : Direction)
  | real (value : Real32)
  | short (value : Int16)
  | int (value : Int32)
  | color (color : Rgba)
  | matrix (matrix : ColorMatrix)
  | optionalMatrix (matrix : Option ColorMatrix)
  | byte (value : UInt8)
  | flags (flags : DrawFlags)
deriving DecidableEq

namespace Member

/-- What a member is written as. -/
def bytes : Member → List UInt8
  | icon i => IconId.layout.option.bytes.encode i
  | text s => Layout.text.option.bytes.encode s
  | direction d => Direction.layout.bytes.encode d
  | real r => Layout.real.bytes.encode r
  | short n => Layout.i16.bytes.encode n
  | int n => Layout.i32.bytes.encode n
  | color c => Rgba.layout.bytes.encode c
  | matrix m => ColorMatrix.layout.bytes.encode m
  | optionalMatrix m => ColorMatrix.layout.option.bytes.encode m
  | byte b => Layout.u8.bytes.encode b
  | flags f => DrawFlags.layout.bytes.encode f

/-- A member of fixed width gets another value: the number inside an icon that is there,
one entry of a colour map that is there, or the whole of a direction, a number, a colour
or flags. -/
inductive Edit : Member → Member → Prop
  | icon {i j : IconId} (h : i ≠ j) : Edit (icon (some i)) (icon (some j))
  | direction {d e : Direction} (h : d ≠ e) : Edit (direction d) (direction e)
  | real {r s : Real32} (h : r ≠ s) : Edit (real r) (real s)
  | short {n k : Int16} (h : n ≠ k) : Edit (short n) (short k)
  | int {n k : Int32} (h : n ≠ k) : Edit (int n) (int k)
  | color {c d : Rgba} (h : c ≠ d) : Edit (color c) (color d)
  | matrix {m : ColorMatrix} {i : Fin 20} {r : Real32} (h : m.entries[i] ≠ r) :
      Edit (matrix m) (matrix ⟨m.entries.set i r⟩)
  | optionalMatrix {m : ColorMatrix} {i : Fin 20} {r : Real32} (h : m.entries[i] ≠ r) :
      Edit (optionalMatrix (some m)) (optionalMatrix (some ⟨m.entries.set i r⟩))
  | byte {b c : UInt8} (h : b ≠ c) : Edit (byte b) (byte c)
  | flags {f g : DrawFlags} (h : f ≠ g) : Edit (flags f) (flags g)

theorem length_encode_real (r : Real32) : (Layout.real.bytes.encode r).length = 4 :=
  length_littleEndian 4 r.bits.toNat

/-- A colour map of which one entry is edited differs in one window. -/
theorem windowApart_matrix {m : ColorMatrix} {i : Fin 20} {r : Real32} (h : m.entries[i] ≠ r) :
    WindowApart (matrix m).bytes (matrix ⟨m.entries.set i r⟩).bytes := by
  have hlt : (i : ℕ) < m.entries.toList.length := by
    rw [Vector.length_toList]
    exact i.isLt
  -- both lists of entries are cut where the edited one stands
  have hold : m.entries.toList =
      m.entries.toList.take i ++ m.entries[i] :: m.entries.toList.drop (i + 1) := by
    have hentry : m.entries.toList[(i : ℕ)] = m.entries[i] := Vector.getElem_toList hlt
    rw [← hentry, List.getElem_cons_drop hlt, List.take_append_drop]
  have hnew : (m.entries.set i r).toList =
      m.entries.toList.take i ++ r :: m.entries.toList.drop (i + 1) := by
    rw [Vector.toList_set, List.set_eq_take_append_cons_drop, if_pos hlt]
  change WindowApart (m.entries.toList.flatMap _) ((m.entries.set i r).toList.flatMap _)
  rw [hold, hnew, List.flatMap_append, List.flatMap_append, List.flatMap_cons, List.flatMap_cons]
  have hentries := windowApart_encode total_real length_encode_real (Nat.le_refl 4) h
  exact (hentries.append_right _).append_left _

theorem Edit.windowApart {m m' : Member} (h : m.Edit m') : WindowApart m.bytes m'.bytes := by
  cases h with
  | icon h =>
      exact (windowApart_encode IconId.total (fun i => length_littleEndian 4 i.number.toNat)
        (Nat.le_refl 4) h).append_left [1]
  | direction h =>
      exact windowApart_encode Direction.total (fun d => by cases d <;> rfl) (Nat.le_refl 4) h
  | real h => exact windowApart_encode total_real length_encode_real (Nat.le_refl 4) h
  | short h =>
      exact windowApart_encode total_i16 (fun n => length_littleEndian 2 n.toUInt16.toNat)
        (by decide) h
  | int h =>
      exact windowApart_encode total_i32 (fun n => length_littleEndian 4 n.toUInt32.toNat)
        (Nat.le_refl 4) h
  | color h => exact windowApart_encode Rgba.total (fun _ => rfl) (Nat.le_refl 4) h
  | matrix h => exact windowApart_matrix h
  | optionalMatrix h => exact (windowApart_matrix h).append_left [1]
  | byte h =>
      exact windowApart_encode total_u8 (fun b => length_littleEndian 1 b.toNat) (by decide) h
  | flags h =>
      exact windowApart_encode DrawFlags.total (fun f => length_littleEndian 2 f.bits.toNat)
        (by decide) h

/-- Two lists of members are alike but for one member, which is edited. -/
def OneEdit (ms ms' : List Member) : Prop :=
  ∃ before m m' after, ms = before ++ m :: after ∧ ms' = before ++ m' :: after ∧ m.Edit m'

theorem OneEdit.windowApart {ms ms' : List Member} (h : OneEdit ms ms') :
    WindowApart (ms.flatMap bytes) (ms'.flatMap bytes) := by
  obtain ⟨before, m, m', after, rfl, rfl, hedit⟩ := h
  simp only [List.flatMap_append, List.flatMap_cons]
  exact (hedit.windowApart.append_right _).append_left _

end Member

/-! ## Filters -/

namespace Filter

/-- The members of a filter in the order of its bytes. -/
def members : Filter → List Member
  | alpha f => [.real f.x, .real f.y, .icon f.icon, .text f.renderSource, .int f.flags]
  | angularBlur f => [.real f.x, .real f.y, .real f.size]
  | bloom f => [.color f.threshold, .real f.size, .real f.offset, .byte f.alpha]
  | blur f => [.real f.size]
  | color f => [.matrix f.matrix, .byte f.space]
  | displace f => [.real f.x, .real f.y, .real f.size, .icon f.icon, .text f.renderSource]
  | dropShadow f => [.real f.x, .real f.y, .real f.size, .real f.offset, .color f.color]
  | layer f =>
    [.real f.x, .real f.y, .icon f.icon, .text f.renderSource, .int f.flags, .color f.color]
  | motionBlur f => [.real f.x, .real f.y]
  | outline f => [.real f.size, .color f.color, .int f.flags]
  | radialBlur f => [.real f.x, .real f.y, .real f.size]
  | rays f =>
    [.real f.x, .real f.y, .real f.size, .color f.color, .real f.offset, .real f.density,
      .real f.threshold, .real f.factor, .int f.flags]
  | ripple f =>
    [.real f.x, .real f.y, .real f.size, .real f.repetition, .real f.radius, .real f.falloff,
      .int f.flags]
  | wave f => [.real f.x, .real f.y, .real f.size, .real f.offset, .int f.flags]
  | greyscale => []

/-- The members leave nothing of a filter out but its kind. -/
theorem eq_of_members_eq {f g : Filter} (hkind : f.kind = g.kind)
    (hmembers : f.members = g.members) : f = g := by
  cases f <;> cases g <;> simp_all [kind, members] <;>
    (rename_i a b; cases a; cases b; simp_all)

theorem index_eq_of_kind_eq {f g : Filter} (h : f.kind = g.kind) :
    (choice f).index = (choice g).index := by
  cases f <;> cases g <;> simp_all [kind, choice, Branch.write, Branch.writeUnit]

theorem bytes_eq (f : Filter) :
    layout.bytes.encode f = littleEndian 4 (choice f).index ++ f.members.flatMap Member.bytes := by
  cases f <;> simp only [members, List.flatMap_cons, List.flatMap_nil, List.append_nil] <;> rfl

/-- The filters are of one kind and alike but for one member, which is edited. -/
def Edit (f g : Filter) : Prop := f.kind = g.kind ∧ Member.OneEdit f.members g.members

theorem Edit.windowApart {f g : Filter} (h : f.Edit g) :
    WindowApart (layout.bytes.encode f) (layout.bytes.encode g) := by
  rw [bytes_eq, bytes_eq, index_eq_of_kind_eq h.1]
  exact h.2.windowApart.append_left _

end Filter

/-! ## States -/

namespace Properties

variable {p q : Properties}

/-- The visual fields in the order of their bytes, up to the filters. -/
def members (p : Properties) : List Member :=
  [.icon p.icon, .text p.iconState, .direction p.direction, .real p.layer, .short p.plane,
    .int p.pixelOffset.x, .int p.pixelOffset.y, .color p.color, .optionalMatrix p.colorMatrix,
    .byte p.alpha, .flags p.flags]

/-- The members and the filters leave nothing of the visual fields out. -/
theorem eq_of_members_eq (hmembers : p.members = q.members) (hfilters : p.filters = q.filters) :
    p = q := by
  obtain ⟨_, _, _, _, _, ⟨⟩, _, _, _, _, _⟩ := p
  obtain ⟨_, _, _, _, _, ⟨⟩, _, _, _, _, _⟩ := q
  simp_all [members]

theorem bytes_eq (p : Properties) :
    layout.bytes.encode p =
      p.members.flatMap Member.bytes ++ Filter.layout.list.bytes.encode p.filters := by
  have hoffset : PixelOffset.layout.bytes.encode p.pixelOffset =
      (Member.int p.pixelOffset.x).bytes ++ (Member.int p.pixelOffset.y).bytes := rfl
  simp only [members, List.flatMap_cons, List.flatMap_nil, List.append_nil, List.append_assoc]
  rw [← List.append_assoc (Member.int _).bytes, ← hoffset]
  rfl

/-- The visual fields are alike but for one member, or but for one filter, which is edited. -/
inductive Edit (p q : Properties) : Prop
  | member (h : Member.OneEdit p.members q.members) (hfilters : p.filters = q.filters)
  | filter (before after : List Filter) {f g : Filter} (hmembers : p.members = q.members)
      (hp : p.filters = before ++ f :: after) (hq : q.filters = before ++ g :: after)
      (h : f.Edit g)

theorem Edit.windowApart (h : p.Edit q) :
    WindowApart (layout.bytes.encode p) (layout.bytes.encode q) := by
  rw [bytes_eq, bytes_eq]
  cases h with
  | member h hfilters =>
      rw [hfilters]
      exact h.windowApart.append_right _
  | filter before after hmembers hp hq h =>
      rw [hmembers, hp, hq]
      exact (windowApart_list h.windowApart before after).append_left _

end Properties

namespace WireState

variable {s s' : WireState}

/-- The states are alike but for one member or one filter, which is edited. -/
structure Edit (s s' : WireState) : Prop where
  properties : s.properties.Edit s'.properties
  overlays : s.overlays = s'.overlays
  underlays : s.underlays = s'.underlays

/-- An edit of one member of fixed width changes the id. -/
theorem contentId_ne_of_edit (h : s.Edit s') : s.contentId ≠ s'.contentId := by
  have hbytes (s : WireState) : s.bytes = Properties.layout.bytes.encode s.properties ++
      (ContentId.layout.list.bytes.encode s.overlays ++
        ContentId.layout.list.bytes.encode s.underlays) := rfl
  have hwindow : WindowApart s.bytes s'.bytes := by
    rw [hbytes, hbytes, h.overlays, h.underlays]
    exact h.properties.windowApart.append_right _
  exact mt (congrArg ContentId.hash) hwindow.ofBytes_ne

/-- Of two blurs, the second is made stronger. -/
theorem contentId_ne_of_edit_blur :
    let s : WireState := .ofProperties
      { Properties.plain with filters := [.greyscale, .ofBlur .zero] }
    let s' : WireState := .ofProperties
      { Properties.plain with filters := [.greyscale, .ofBlur .one] }
    s.Edit s' ∧ s.contentId ≠ s'.contentId := by
  intro s s'
  have hblur : (Filter.ofBlur .zero).Edit (.ofBlur .one) :=
    ⟨rfl, [], .real .zero, .real .one, [], rfl, rfl, .real (by decide)⟩
  have hedit : s.Edit s' :=
    ⟨.filter [.greyscale] [] rfl rfl rfl hblur, rfl, rfl⟩
  exact ⟨hedit, contentId_ne_of_edit hedit⟩

end WireState
end AppearanceSync
