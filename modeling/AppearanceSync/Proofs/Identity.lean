import AppearanceSync.Canonical
import AppearanceSync.Proofs.Wire.Laws

/-!
# What an id stands for

An id names a wire state by the hash of its bytes, and a wire state names what is drawn
over and under it by ids again.  So an id stands for a whole tree: if two trees have one
id, then they are equal, or some two states in them are hashed alike although their bytes
differ.  Nothing is assumed of the hash.
-/

namespace AppearanceSync

variable {s s' : WireState}

/-- Two states whose bytes differ and have one hash. -/
structure WireState.Collide (s s' : WireState) : Prop where
  ne : s ≠ s'
  bytes_ne : s.bytes ≠ s'.bytes
  hash_eq : Hash.ofBytes s.bytes = Hash.ofBytes s'.bytes

theorem WireState.eq_iff_bytes_eq (hs : s.Fits) (hs' : s'.Fits) : s = s' ↔ s.bytes = s'.bytes :=
  ⟨congrArg bytes, WireState.lawful.eq_of_encode_eq hs hs'⟩

theorem WireState.eq_or_collide (hs : s.Fits) (hs' : s'.Fits) (hid : s.contentId = s'.contentId) :
    s = s' ∨ s.Collide s' := by
  by_cases heq : s = s'
  · exact Or.inl heq
  · exact Or.inr ⟨heq, mt (eq_iff_bytes_eq hs hs').mpr heq, congrArg ContentId.hash hid⟩

namespace Descriptor

variable {a b c d part : Descriptor} {max max' : ℕ}

/-! ## Trees and their states -/

theorem size_le_sizeList {ds : List Descriptor} (h : c ∈ ds) : c.size ≤ sizeList ds := by
  induction ds with
  | nil => cases h
  | cons d ds ih =>
      rw [sizeList]
      rcases List.mem_cons.mp h with rfl | h
      · exact Nat.le_add_right _ _
      · exact Nat.le_add_left_of_le (ih h)

theorem size_lt_of_mem_children (h : c ∈ d.children) : c.size < d.size := by
  rw [d.size_eq, Nat.add_comm]
  exact Nat.lt_succ_of_le (size_le_sizeList h)

/-- What holds of a tree whenever it holds of everything directly in it holds of all. -/
theorem induction_on_children {motive : Descriptor → Prop}
    (step : ∀ d, (∀ c ∈ d.children, motive c) → motive d) (d : Descriptor) : motive d :=
  step d fun c _ => induction_on_children step c
termination_by d.size
decreasing_by exact size_lt_of_mem_children ‹_›

/-- A tree is a part of itself and of every tree in which one of its wholes is drawn. -/
inductive Part : Descriptor → Descriptor → Prop
  | self (d : Descriptor) : Part d d
  | drawn {part c d : Descriptor} (hmem : c ∈ d.children) (hpart : Part part c) : Part part d

/-- The tree as it is sent. -/
def state (d : Descriptor) : WireState := d.canonical.toState

/-- All lengths in the tree can be written: they are counted in eight bytes, and texts and
lists that are held in memory are always shorter than that. -/
def Fits (d : Descriptor) : Prop := ∀ part, Part part d → part.state.Fits

theorem Fits.child (h : d.Fits) (hmem : c ∈ d.children) : c.Fits :=
  fun part hpart => h part (.drawn hmem hpart)

theorem canonicalList_eq_map (ds : List Descriptor) : canonicalList ds = ds.map canonical := by
  induction ds with
  | nil => rfl
  | cons d ds ih => rw [canonicalList, ih, List.map_cons]

/-- The name of a tree is that of its state. -/
theorem id_canonical (d : Descriptor) : d.canonical.id = d.state.contentId := by
  obtain ⟨properties, overlays, underlays⟩ := d
  simp only [state, canonical, Canonical.ofParts, Canonical.toState, Canonical.id,
    Canonical.properties, Canonical.overlays, Canonical.underlays, List.map_map]
  rfl

/-- A tree is sent with the names of what is drawn over and under it. -/
theorem state_eq (d : Descriptor) :
    d.state = ⟨d.properties, d.overlays.map fun c => c.state.contentId,
      d.underlays.map fun c => c.state.contentId⟩ := by
  have hids (ds : List Descriptor) :
      ((canonicalList ds).map Slot.filled).map Slot.id = ds.map fun c => c.state.contentId := by
    rw [canonicalList_eq_map, List.map_map, List.map_map]
    exact List.map_congr_left fun c _ => c.id_canonical
  obtain ⟨properties, overlays, underlays⟩ := d
  rw [← hids overlays, ← hids underlays]
  simp only [state, canonical, Canonical.ofParts, Canonical.toState, Canonical.properties,
    Canonical.overlays, Canonical.underlays]

theorem eq_canonical_of_canonicalize {form : Canonical Unit} (h : d.canonicalize max = .ok form) :
    form = d.canonical := by
  rw [canonicalize, validate] at h
  split at h
  · cases h
  · exact (Except.ok.inj h).symm

/-! ## Trees of one name -/

theorem eq_of_map_eq_map {α β : Type} {f : α → β} {as bs : List α}
    (hinj : ∀ a ∈ as, ∀ b ∈ bs, f a = f b → a = b) (h : as.map f = bs.map f) : as = bs := by
  induction as generalizing bs with
  | nil => exact (List.map_eq_nil_iff.mp h.symm).symm
  | cons a as ih =>
      obtain ⟨b, bs, rfl, hb, hbs⟩ := List.map_eq_cons_iff.mp h.symm
      obtain rfl := hinj a List.mem_cons_self b List.mem_cons_self hb.symm
      rw [ih (fun a' ha' b' hb' => hinj a' (.tail _ ha') b' (.tail _ hb')) hbs.symm]

/-- Two trees of one name are equal if no state in one collides with a state in the other. -/
theorem eq_of_contentId_eq (ha : a.Fits) (hb : b.Fits)
    (hnone : ∀ p q, Part p a → Part q b → ¬p.state.Collide q.state)
    (hid : a.state.contentId = b.state.contentId) : a = b := by
  induction a using induction_on_children generalizing b with
  | step a ih =>
      -- the states at the two roots do not collide, so they agree on the names of the children
      have hstate : a.state = b.state :=
        (WireState.eq_or_collide (ha a (.self a)) (hb b (.self b)) hid).resolve_right
          (hnone a b (.self a) (.self b))
      rw [a.state_eq, b.state_eq] at hstate
      obtain ⟨hproperties, hoverlays, hunderlays⟩ := WireState.mk.inj hstate
      have hchild : ∀ c ∈ a.children, ∀ c' ∈ b.children,
          c.state.contentId = c'.state.contentId → c = c' := by
        intro c hc c' hc' hid'
        refine ih c hc (ha.child hc) (hb.child hc') ?_ hid'
        intro p q hp hq
        exact hnone p q (.drawn hc hp) (.drawn hc' hq)
      have hover : a.overlays = b.overlays := eq_of_map_eq_map
        (fun c hc c' hc' => hchild c (List.mem_append_left _ hc) c' (List.mem_append_left _ hc'))
        hoverlays
      have hunder : a.underlays = b.underlays := eq_of_map_eq_map
        (fun c hc c' hc' => hchild c (List.mem_append_right _ hc) c' (List.mem_append_right _ hc'))
        hunderlays
      cases a
      cases b
      rw [Descriptor.mk.injEq]
      exact ⟨hproperties, hover, hunder⟩

/-- Two trees that are accepted under one name are equal, or a state in one of them and a
state in the other are a collision of the hash.  The bytes leave nothing of a state out,
so two states of one name are equal or collide themselves. -/
theorem eq_or_collision_of_id_eq :
    (∀ (a b : Descriptor) (max max' : ℕ) (ca cb : Canonical Unit), a.Fits → b.Fits →
      a.canonicalize max = .ok ca → b.canonicalize max' = .ok cb → ca.id = cb.id →
        a = b ∨ ∃ p q, Part p a ∧ Part q b ∧ p.state.Collide q.state) ∧
      ∀ s s' : WireState, s.Fits → s'.Fits →
        (s = s' ↔ s.bytes = s'.bytes) ∧ (s.contentId = s'.contentId → s = s' ∨ s.Collide s') := by
  constructor
  · intro a b max max' ca cb ha hb hca hcb hid
    by_cases hcollision : ∃ p q, Part p a ∧ Part q b ∧ p.state.Collide q.state
    · exact Or.inr hcollision
    · left
      refine eq_of_contentId_eq ha hb ?_ ?_
      · intro p q hp hq hcollide
        exact hcollision ⟨p, q, hp, hq, hcollide⟩
      · rw [← a.id_canonical, ← b.id_canonical, ← eq_canonical_of_canonicalize hca,
          ← eq_canonical_of_canonicalize hcb, hid]
  · intro s s' hs hs'
    exact ⟨WireState.eq_iff_bytes_eq hs hs', WireState.eq_or_collide hs hs'⟩

/-- A plain appearance with this offset and colour. -/
def tinted (offset : PixelOffset) (color : Rgba) : Descriptor :=
  ofProperties { Properties.plain with pixelOffset := offset, color := color }

theorem fits_tinted (offset : PixelOffset) (color : Rgba) : (tinted offset color).Fits := by
  intro part hpart
  cases hpart with
  | drawn hmem _ => cases hmem
  | self =>
      rw [state_eq]
      have hpos : 0 < Codec.lengthBound := by decide
      have hproperties : (tinted offset color).properties.Fits :=
        ⟨fun _ h => (nomatch h), hpos, fun _ h => (nomatch h)⟩
      exact ⟨hproperties, hpos, hpos⟩

theorem canonicalize_tinted (offset : PixelOffset) (color : Rgba) :
    (tinted offset color).canonicalize 0 = .ok (tinted offset color).canonical := by
  have hdepth : (tinted offset color).depth = 0 := by
    simp [depth, deepestOf, children, tinted, ofProperties]
  rw [canonicalize, validate, hdepth]
  rfl

/-- The alternative is needed: these two trees differ and have one id. -/
theorem eq_or_collision_of_id_eq_tinted :
    let a := tinted ⟨-161900610, 659696481⟩ ⟨191, 207, 225, 185⟩
    let b := tinted ⟨-1765754955, 1035744527⟩ ⟨250, 70, 209, 185⟩
    a ≠ b ∧ a.canonical.id = b.canonical.id ∧
      (∃ p q, Part p a ∧ Part q b ∧ p.state.Collide q.state) ∧ a.state.bytes ≠ b.state.bytes := by
  intro a b
  have hne : a ≠ b := by decide
  have hid : a.canonical.id = b.canonical.id := by decide +kernel
  have hfits : a.Fits := fits_tinted _ _
  have hfits' : b.Fits := fits_tinted _ _
  refine ⟨hne, hid, ?_, ?_⟩
  · exact (eq_or_collision_of_id_eq.1 a b 0 0 _ _ hfits hfits' (canonicalize_tinted _ _)
      (canonicalize_tinted _ _) hid).resolve_left hne
  · have hstate : a.state ≠ b.state := by decide
    have hiff := (eq_or_collision_of_id_eq.2 _ _ (hfits a (.self a)) (hfits' b (.self b))).1
    exact mt hiff.mpr hstate

end Descriptor
end AppearanceSync
