import AppearanceSync.Proofs.Wire.FlagText
import AppearanceSync.Proofs.Wire.Message

/-!
# What the JSON of a message says

Reading the JSON of a message gives the message back if all of its real numbers are finite:
the layers of its appearances, their colour matrices and the parameters of their filters.  If
one of them is not finite, reading is refused, with the fault that the JSON is not of the shape
that was asked for; no other message is ever read.
-/

namespace AppearanceSync

open Json (ReadBack)
open Json.Form (echoes_integer echoes_natural echoes_text echoes_none opensNumber_toString)

variable {α β : Type} {a : α} {b : β} {xs ys : List Real32}

/-! ## Layouts -/

namespace Layout

variable {l : Layout α}

theorem echoes_u8 (n : UInt8) : u8.json.Echoes n [] :=
  (echoes_natural (by decide) (Nat.le_sub_one_of_lt n.toNat_lt)).map rfl UInt8.ofNat_toNat

theorem echoes_u32 (n : UInt32) : u32.json.Echoes n [] :=
  (echoes_natural (by decide) (Nat.le_sub_one_of_lt n.toNat_lt)).map rfl UInt32.ofNat_toNat

theorem echoes_u64 (n : UInt64) : u64.json.Echoes n [] :=
  (echoes_natural (Nat.le_refl _) (Nat.le_sub_one_of_lt n.toNat_lt)).map rfl UInt64.ofNat_toNat

theorem echoes_i16 (n : Int16) : i16.json.Echoes n [] :=
  (echoes_integer (by decide) (by decide) ⟨n.le_toInt, Int.le_of_lt_add_one n.toInt_lt⟩).map rfl
    (Int16.ofInt_toInt n)

theorem echoes_i32 (n : Int32) : i32.json.Echoes n [] :=
  (echoes_integer (by decide) (by decide) ⟨n.le_toInt, Int.le_of_lt_add_one n.toInt_lt⟩).map rfl
    (Int32.ofInt_toInt n)

theorem echoes_bool (b : Bool) : bool.json.Echoes b [] := Json.Form.echoes_bool b

theorem echoes_string (s : String) : text.json.Echoes s [] :=
  (echoes_text s.toList).map rfl String.ofList_toList

theorem echoes_real (x : Real32) : real.json.Echoes x [x] := Json.Form.echoes_real x

theorem echoes_option {reals : α → List Real32} (h : ∀ a, l.json.Echoes a (reals a))
    (hhead : ∀ a, (l.json.write a).head? ≠ some 'n') (o : Option α) :
    l.option.json.Echoes o (o.toList.flatMap reals) := by
  cases o with
  | none => exact echoes_none _
  | some a =>
      rw [Option.toList_some, List.flatMap_singleton]
      exact (h a).some (hhead a)

theorem echoes_option_nil (h : ∀ a, l.json.Echoes a [])
    (hhead : ∀ a, (l.json.write a).head? ≠ some 'n') (o : Option α) :
    l.option.json.Echoes o [] := by
  have hoption := echoes_option h hhead o
  rwa [List.flatMap_eq_nil_iff.mpr fun _ _ => rfl] at hoption

theorem echoes_list {reals : α → List Real32} (h : ∀ a, l.json.Echoes a (reals a))
    (items : List α) : l.list.json.Echoes items (items.flatMap reals) :=
  Json.Form.echoes_list fun a _ => h a

theorem echoes_list_nil (h : ∀ a, l.json.Echoes a []) (items : List α) :
    l.list.json.Echoes items [] := by
  have hlist := echoes_list h items
  rwa [List.flatMap_eq_nil_iff.mpr fun _ _ => rfl] at hlist

/-- An alternative without content is found by its name. -/
theorem echoes_names [DecidableEq α] {all : List α} {name : α → String} (ha : a ∈ all)
    (hnames : (all.map name).Nodup) : (names all name).json.Echoes a [] where
  opens := ⟨'"', _, rfl, rfl, by decide⟩
  reads := by
    intro _ rest _
    have harms : ((all.map fun a => Json.Arm.unit (name a) a).map Json.Arm.name).Nodup := by
      rw [List.map_map]
      exact hnames
    exact Json.Arm.read_unit (Json.find?_name harms (List.mem_map_of_mem ha)) rest

variable {write : α → Choice} {branches : List (Branch α)} {branch : Branch α} {i : ℕ}
  {name : String}

theorem find?_arm (hnames : (branches.map fun branch => branch.arm.name).Nodup)
    (hbranch : branches[i]? = some branch) :
    Json.Arm.find? (branches.map (·.arm)) branch.arm.name.toList = some branch.arm := by
  have harms : ((branches.map (·.arm)).map Json.Arm.name).Nodup := by
    rw [List.map_map]
    exact hnames
  exact Json.find?_name harms (List.mem_map_of_mem (List.mem_of_getElem? hbranch))

theorem echoes_unit (hnames : (branches.map fun branch => branch.arm.name).Nodup)
    (hbranch : branches[i]? = some (.unit name a))
    (hwrite : write a = Branch.writeUnit i name) : (choice write branches).json.Echoes a [] where
  opens := by
    change Json.Opens (write a).text
    rw [hwrite]
    exact ⟨'"', _, rfl, rfl, by decide⟩
  reads := by
    intro _ rest _
    change Json.Arm.read _ ((write a).text ++ rest) = _
    rw [hwrite]
    exact Json.Arm.read_unit (find?_arm hnames hbranch) rest

/-- An alternative with content is read if the content is. -/
theorem echoes_holding (hnames : (branches.map fun branch => branch.arm.name).Nodup)
    {l : Layout β} {wrap : β → α} (hbranch : branches[i]? = some (.holding name l wrap))
    (hwrite : write (wrap b) = Branch.write i name l b) (hb : l.json.Echoes b xs) :
    (choice write branches).json.Echoes (wrap b) xs where
  opens := by
    change Json.Opens (write (wrap b)).text
    rw [hwrite]
    exact ⟨'\x7b', _, rfl, rfl, by decide⟩
  reads := by
    intro hback rest _
    change Json.Arm.read _ ((write (wrap b)).text ++ rest) = _
    rw [hwrite]
    exact Json.Arm.read_holding (find?_arm hnames hbranch) hb hback rest

end Layout

namespace Record

variable {r : Record α} {s : Record β} {l : Layout α} {name : String}

theorem echoes_one (h : l.json.Echoes a xs) : (one name l).json.Echoes a xs :=
  Json.Fields.echoes_one h name

theorem echoes_before (h : l.json.Echoes a xs) (hs : s.json.Echoes b ys) :
    (before name l s).json.Echoes (a, b) (xs ++ ys) :=
  (Json.Fields.echoes_one h name).pair hs

theorem echoes_map (h : r.json.Echoes a xs)
    (hnames : (r.json.members.map Json.Member.name).Nodup) {forth : α → β} {back : β → α}
    (hback : back b = a) (hforth : forth a = b) : (r.map forth back).layout.json.Echoes b xs :=
  (h.map hback hforth).form hnames false

end Record

open Layout (echoes_u8 echoes_u32 echoes_u64 echoes_i16 echoes_i32 echoes_bool echoes_string
  echoes_real echoes_option echoes_option_nil echoes_list echoes_list_nil echoes_names
  echoes_unit echoes_holding)
open Record (echoes_one echoes_before echoes_map)

/-! ## Single values -/

theorem IconId.echoes (id : IconId) : IconId.layout.json.Echoes id [] :=
  (echoes_u32 id.number).map rfl rfl

theorem IconId.echoes_option (o : Option IconId) : IconId.layout.option.json.Echoes o [] :=
  echoes_option_nil IconId.echoes (fun _ => (opensNumber_toString _).head?_ne) o

theorem Text.echoes_option (o : Option String) : Layout.text.option.json.Echoes o [] :=
  echoes_option_nil echoes_string (fun _ => nofun) o

theorem ContentId.echoes (id : ContentId) : ContentId.layout.json.Echoes id [] :=
  (echoes_u64 id.hash).map rfl rfl

theorem Rgba.echoes (c : Rgba) : Rgba.layout.json.Echoes c [] :=
  echoes_map (echoes_before (echoes_u8 _) <| echoes_before (echoes_u8 _) <|
    echoes_before (echoes_u8 _) <| echoes_one (echoes_u8 _)) (by decide) rfl rfl

theorem PixelOffset.echoes (p : PixelOffset) : PixelOffset.layout.json.Echoes p [] :=
  echoes_map (echoes_before (echoes_i32 _) <| echoes_one (echoes_i32 _)) (by decide) rfl rfl

theorem Direction.echoes (d : Direction) : Direction.layout.json.Echoes d [] :=
  echoes_names (by cases d <;> decide) (by decide)

theorem Easing.echoes (e : Easing) : Easing.layout.json.Echoes e [] :=
  echoes_names (by cases e <;> decide) (by decide)

theorem DrawFlags.echoes (flags : DrawFlags) : DrawFlags.layout.json.Echoes flags [] := by
  have hread := FlagText.read?_write FlagText.legible_draw
    (Nat.le_sub_one_of_lt flags.bits.toNat_lt)
  have htext := echoes_text (FlagText.write names flags.bits.toNat)
  dsimp only [layout]
  refine htext.refine ?_ ?_
  · rfl
  · rw [hread, Option.map_some, UInt16.ofNat_toNat]

theorem PlayFlags.echoes (flags : PlayFlags) : PlayFlags.layout.json.Echoes flags [] := by
  have hread := FlagText.read?_write FlagText.legible_play
    (Nat.le_sub_one_of_lt flags.bits.toNat_lt)
  have htext := echoes_text (FlagText.write names flags.bits.toNat)
  dsimp only [layout]
  refine htext.refine ?_ ?_
  · rfl
  · rw [hread, Option.map_some, UInt32.ofNat_toNat]

namespace ColorMatrix

/-- The real numbers of the matrix. -/
def reals (m : ColorMatrix) : List Real32 := m.entries.toList

theorem echoes (m : ColorMatrix) : layout.json.Echoes m m.reals := by
  have hreals : ∀ x ∈ m.entries.toList, Layout.real.json.Echoes x [x] := fun x _ => echoes_real x
  have hvector := Json.Form.echoes_vector hreals
  rw [List.flatMap_singleton'] at hvector
  exact hvector.map rfl rfl

theorem echoes_option (o : Option ColorMatrix) :
    layout.option.json.Echoes o (o.toList.flatMap reals) :=
  Layout.echoes_option echoes (fun _ => nofun) o

end ColorMatrix

/-! ## Filters -/

namespace Filter

theorem Mask.echoes (f : Mask) : Mask.layout.json.Echoes f [f.x, f.y] :=
  echoes_map (echoes_before (echoes_real _) <| echoes_before (echoes_real _) <|
    echoes_before (IconId.echoes_option _) <| echoes_before (Text.echoes_option _) <|
    echoes_one (echoes_i32 _)) (by decide) rfl rfl

theorem CenteredBlur.echoes (f : CenteredBlur) :
    CenteredBlur.layout.json.Echoes f [f.x, f.y, f.size] :=
  echoes_map (echoes_before (echoes_real _) <| echoes_before (echoes_real _) <|
    echoes_one (echoes_real _)) (by decide) rfl rfl

theorem Bloom.echoes (f : Bloom) : Bloom.layout.json.Echoes f [f.size, f.offset] :=
  echoes_map (echoes_before (Rgba.echoes _) <| echoes_before (echoes_real _) <|
    echoes_before (echoes_real _) <| echoes_one (echoes_u8 _)) (by decide) rfl rfl

theorem Blur.echoes (f : Blur) : Blur.layout.json.Echoes f [f.size] :=
  echoes_map (echoes_one (echoes_real _)) (by decide) rfl rfl

theorem Recolor.echoes (f : Recolor) : Recolor.layout.json.Echoes f f.matrix.reals := by
  rw [← List.append_nil f.matrix.reals]
  exact echoes_map (echoes_before (ColorMatrix.echoes _) <| echoes_one (echoes_u8 _)) (by decide)
    rfl rfl

theorem Displacement.echoes (f : Displacement) :
    Displacement.layout.json.Echoes f [f.x, f.y, f.size] :=
  echoes_map (echoes_before (echoes_real _) <| echoes_before (echoes_real _) <|
    echoes_before (echoes_real _) <| echoes_before (IconId.echoes_option _) <|
    echoes_one (Text.echoes_option _)) (by decide) rfl rfl

theorem DropShadow.echoes (f : DropShadow) :
    DropShadow.layout.json.Echoes f [f.x, f.y, f.size, f.offset] :=
  echoes_map (echoes_before (echoes_real _) <| echoes_before (echoes_real _) <|
    echoes_before (echoes_real _) <| echoes_before (echoes_real _) <|
    echoes_one (Rgba.echoes _)) (by decide) rfl rfl

theorem Layer.echoes (f : Layer) : Layer.layout.json.Echoes f [f.x, f.y] :=
  echoes_map (echoes_before (echoes_real _) <| echoes_before (echoes_real _) <|
    echoes_before (IconId.echoes_option _) <| echoes_before (Text.echoes_option _) <|
    echoes_before (echoes_i32 _) <| echoes_one (Rgba.echoes _)) (by decide) rfl rfl

theorem MotionBlur.echoes (f : MotionBlur) : MotionBlur.layout.json.Echoes f [f.x, f.y] :=
  echoes_map (echoes_before (echoes_real _) <| echoes_one (echoes_real _)) (by decide) rfl rfl

theorem Outline.echoes (f : Outline) : Outline.layout.json.Echoes f [f.size] :=
  echoes_map (echoes_before (echoes_real _) <| echoes_before (Rgba.echoes _) <|
    echoes_one (echoes_i32 _)) (by decide) rfl rfl

theorem Rays.echoes (f : Rays) : Rays.layout.json.Echoes f
    [f.x, f.y, f.size, f.offset, f.density, f.threshold, f.factor] :=
  echoes_map (echoes_before (echoes_real _) <| echoes_before (echoes_real _) <|
    echoes_before (echoes_real _) <| echoes_before (Rgba.echoes _) <|
    echoes_before (echoes_real _) <| echoes_before (echoes_real _) <|
    echoes_before (echoes_real _) <| echoes_before (echoes_real _) <|
    echoes_one (echoes_i32 _)) (by decide) rfl rfl

theorem Ripple.echoes (f : Ripple) : Ripple.layout.json.Echoes f
    [f.x, f.y, f.size, f.repetition, f.radius, f.falloff] :=
  echoes_map (echoes_before (echoes_real _) <| echoes_before (echoes_real _) <|
    echoes_before (echoes_real _) <| echoes_before (echoes_real _) <|
    echoes_before (echoes_real _) <| echoes_before (echoes_real _) <|
    echoes_one (echoes_i32 _)) (by decide) rfl rfl

theorem Wave.echoes (f : Wave) : Wave.layout.json.Echoes f [f.x, f.y, f.size, f.offset] :=
  echoes_map (echoes_before (echoes_real _) <| echoes_before (echoes_real _) <|
    echoes_before (echoes_real _) <| echoes_before (echoes_real _) <|
    echoes_one (echoes_i32 _)) (by decide) rfl rfl

/-- The real numbers among the parameters. -/
def reals : Filter → List Real32
  | alpha f => [f.x, f.y]
  | angularBlur f => [f.x, f.y, f.size]
  | bloom f => [f.size, f.offset]
  | blur f => [f.size]
  | color f => f.matrix.reals
  | displace f => [f.x, f.y, f.size]
  | dropShadow f => [f.x, f.y, f.size, f.offset]
  | layer f => [f.x, f.y]
  | motionBlur f => [f.x, f.y]
  | outline f => [f.size]
  | radialBlur f => [f.x, f.y, f.size]
  | rays f => [f.x, f.y, f.size, f.offset, f.density, f.threshold, f.factor]
  | ripple f => [f.x, f.y, f.size, f.repetition, f.radius, f.falloff]
  | wave f => [f.x, f.y, f.size, f.offset]
  | greyscale => []

theorem echoes (f : Filter) : layout.json.Echoes f f.reals := by
  have hnames : (branches.map fun branch => branch.arm.name).Nodup := by decide
  cases f with
  | alpha f => exact echoes_holding hnames (i := 0) rfl rfl f.echoes
  | angularBlur f => exact echoes_holding hnames (i := 1) rfl rfl f.echoes
  | bloom f => exact echoes_holding hnames (i := 2) rfl rfl f.echoes
  | blur f => exact echoes_holding hnames (i := 3) rfl rfl f.echoes
  | color f => exact echoes_holding hnames (i := 4) rfl rfl f.echoes
  | displace f => exact echoes_holding hnames (i := 5) rfl rfl f.echoes
  | dropShadow f => exact echoes_holding hnames (i := 6) rfl rfl f.echoes
  | layer f => exact echoes_holding hnames (i := 7) rfl rfl f.echoes
  | motionBlur f => exact echoes_holding hnames (i := 8) rfl rfl f.echoes
  | outline f => exact echoes_holding hnames (i := 9) rfl rfl f.echoes
  | radialBlur f => exact echoes_holding hnames (i := 10) rfl rfl f.echoes
  | rays f => exact echoes_holding hnames (i := 11) rfl rfl f.echoes
  | ripple f => exact echoes_holding hnames (i := 12) rfl rfl f.echoes
  | wave f => exact echoes_holding hnames (i := 13) rfl rfl f.echoes
  | greyscale => exact echoes_unit hnames (i := 14) rfl rfl

end Filter

/-! ## Appearances -/

namespace Properties

/-- The layer, and the real numbers of the colour matrix and of the filters. -/
def reals (p : Properties) : List Real32 :=
  p.layer :: (p.colorMatrix.toList.flatMap ColorMatrix.reals ++ p.filters.flatMap Filter.reals)

theorem echoes (p : Properties) : layout.json.Echoes p p.reals :=
  echoes_map (echoes_before (IconId.echoes_option _) <| echoes_before (Text.echoes_option _) <|
    echoes_before (Direction.echoes _) <| echoes_before (echoes_real _) <|
    echoes_before (echoes_i16 _) <| echoes_before (PixelOffset.echoes _) <|
    echoes_before (Rgba.echoes _) <| echoes_before (ColorMatrix.echoes_option _) <|
    echoes_before (echoes_u8 _) <| echoes_before (DrawFlags.echoes _) <|
    echoes_one (echoes_list Filter.echoes _)) (by decide) rfl rfl

end Properties

namespace WireState

/-- The real numbers of the properties; other appearances are named only. -/
def reals (state : WireState) : List Real32 := state.properties.reals

theorem echoes (state : WireState) : layout.json.Echoes state state.reals := by
  rw [← List.append_nil state.reals]
  exact echoes_map (echoes_before (Properties.echoes _) <|
    echoes_before (echoes_list_nil ContentId.echoes _) <|
    echoes_one (echoes_list_nil ContentId.echoes _)) (by decide) rfl rfl

end WireState

/-! ## Messages -/

theorem Span.echoes (s : Span) : Span.layout.json.Echoes s [] := by
  have hseconds : (UInt64.ofNat s.seconds).toNat = s.seconds :=
    UInt64.toNat_ofNat_of_lt' s.seconds_lt
  have hnanos : (UInt32.ofNat s.subsecondNanos).toNat = s.subsecondNanos :=
    UInt32.toNat_ofNat_of_lt' (Nat.lt_trans s.subsecondNanos_lt (by decide))
  have hparts := (Json.Fields.echoes_one (echoes_u64 (UInt64.ofNat s.seconds)) "secs").pair
    (Json.Fields.echoes_one (echoes_u32 (UInt32.ofNat s.subsecondNanos)) "nanos")
  refine Json.Fields.Echoes.form (hparts.refine ?_ ?_) ?_ true
  · rfl
  · change ofParts? (UInt64.ofNat s.seconds).toNat (UInt32.ofNat s.subsecondNanos).toNat = some s
    rw [hseconds, hnanos, s.ofParts?_parts]
  · decide

theorem Target.echoes (t : Target) : Target.layout.json.Echoes t [] := by
  cases t with
  | entity id =>
      exact echoes_holding (by decide) (i := 0) rfl rfl ((echoes_u64 id.bits).map rfl rfl)
  | turf id =>
      exact echoes_holding (by decide) (i := 1) rfl rfl ((echoes_u64 id.number).map rfl rfl)

theorem PlayParams.echoes (p : PlayParams) : PlayParams.fields.json.Echoes p [] :=
  Json.Fields.Echoes.map (echoes_before (Span.echoes _) <| echoes_before (Easing.echoes _) <|
    echoes_before (echoes_i32 _) <| echoes_before (PlayFlags.echoes _) <|
    echoes_before (echoes_i32 _) <| echoes_one (echoes_bool _)) rfl rfl

theorem Added.echoes (m : Added) : Added.layout.json.Echoes m m.appearance.reals :=
  echoes_map (echoes_before (ContentId.echoes _) <| echoes_one (WireState.echoes _)) (by decide)
    rfl rfl

theorem Removed.echoes (m : Removed) : Removed.layout.json.Echoes m [] :=
  echoes_map (echoes_one (ContentId.echoes _)) (by decide) rfl rfl

theorem Animate.echoes (m : Animate) : Animate.layout.json.Echoes m [] :=
  echoes_map (echoes_before (Target.echoes _) <| echoes_before (ContentId.echoes _) <|
    PlayParams.echoes _) (by decide) rfl rfl

namespace Snapshot

/-- The real numbers of all entries. -/
def reals (table : Snapshot) : List Real32 := table.entries.flatMap fun e => e.2.reals

theorem echoes_table (table : Snapshot) : tableLayout.json.Echoes table table.reals := by
  have hkeys : ∀ e ∈ table.entries.map (fun e => (e.1.hash.toNat, e.2)),
      e.1 ≤ UInt64.size - 1 := by
    intro e he
    obtain ⟨entry, -, rfl⟩ := List.mem_map.mp he
    exact Nat.le_sub_one_of_lt entry.1.hash.toNat_lt
  have hkeyed := Json.Form.echoes_keyed (Nat.le_refl _) hkeys fun e _ => e.2.echoes
  rw [List.flatMap_map] at hkeyed
  dsimp only [tableLayout]
  refine hkeyed.map ?_ ?_
  · rfl
  · have hself : ∀ e : ContentId × WireState,
        (ContentId.mk (UInt64.ofNat e.1.hash.toNat), e.2) = e := fun e => by rw [UInt64.ofNat_toNat]
    rw [List.map_map]
    exact (congrArg ofList (List.map_id'' hself table.entries)).trans table.ofList_entries

theorem echoes (table : Snapshot) : layout.json.Echoes table table.reals :=
  Json.Fields.Echoes.form (echoes_one table.echoes_table) (by decide) false

end Snapshot

namespace Message

/-- The real numbers of the appearances that the message tells of. -/
def reals : Message → List Real32
  | snapshot table => table.reals
  | added event => event.appearance.reals
  | removed _ => []
  | animate _ => []

theorem echoes (m : Message) : layout.json.Echoes m m.reals := by
  cases m with
  | snapshot table => exact echoes_holding (by decide) (i := 0) rfl rfl table.echoes
  | added event => exact echoes_holding (by decide) (i := 1) rfl rfl event.echoes
  | removed event => exact echoes_holding (by decide) (i := 2) rfl rfl event.echoes
  | animate event => exact echoes_holding (by decide) (i := 3) rfl rfl event.echoes

/-- A message is read from its own JSON if all of its real numbers are finite; otherwise its
JSON is refused, because no number is where one was asked for. -/
theorem ofJson_toJson (m : Message) (hback : ReadBack m.reals) :
    ((∀ x ∈ m.reals, x.isFinite) → ofJson m.toJson = .ok m) ∧
      ((∃ x ∈ m.reals, x.isFinite = false) → ofJson m.toJson = .error .mismatch) := by
  have hread : ofJson m.toJson = Except.map Prod.fst (Json.echo m.reals m []) := by
    have hform := m.echoes.reads hback [] Json.ends_nil
    rw [List.append_nil] at hform
    rw [ofJson, toJson, String.toList_ofList, Json.readDocument, hform, Json.echo]
    split <;> rfl
  rw [hread, Json.echo]
  constructor
  · intro hfinite
    rw [if_pos (List.all_eq_true.mpr hfinite)]
    rfl
  · rintro ⟨x, hx, hinfinite⟩
    have hall : ¬m.reals.all Real32.isFinite := fun hall => by
      rw [List.all_eq_true.mp hall x hx] at hinfinite
      cases hinfinite
    rw [if_neg hall]
    rfl

/-- A blur of a finite size comes back, one of a size that is not a number does not. -/
theorem ofJson_toJson_blur :
    let blurred (size : Real32) : Message := .added ⟨⟨7⟩, .ofProperties
      { Properties.plain with colorMatrix := some .identity, filters := [.ofBlur size] }⟩
    ofJson (blurred ⟨0x40490fdb⟩).toJson = .ok (blurred ⟨0x40490fdb⟩) ∧
      ofJson (blurred ⟨0x7fc00000⟩).toJson = .error .mismatch :=
  ⟨(ofJson_toJson _ (by decide +kernel)).1 (by decide +kernel),
    (ofJson_toJson _ (by decide +kernel)).2 (by decide +kernel)⟩

end Message
end AppearanceSync
