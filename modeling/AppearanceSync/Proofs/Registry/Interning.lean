import AppearanceSync.Proofs.Registry.Chronicle
import AppearanceSync.Proofs.Unfolding

/-!
# What interning adds

Interning hands out an instance of the name that the tree has by itself.  If no two
states that matter are hashed alike, then the registry has all states of the tree
afterwards and lost nothing, and it has announced exactly what was missing.  What an
instance already holds is not lost when a second handle to it is given up, so finding
a registered instance changes nothing that anybody can see.
-/

namespace AppearanceSync

namespace Canonical

variable {κ : Type} {a : Canonical κ} {d : Descriptor}

/-- An editable copy consists of copies of what is in the slots. -/
theorem toDescriptor_eq_ok_iff :
    a.toDescriptor = .ok d ↔ a.properties = d.properties ∧
      List.Forall₂ (fun s c => slotDescriptor s = .ok c) a.overlays d.overlays ∧
      List.Forall₂ (fun s c => slotDescriptor s = .ok c) a.underlays d.underlays := by
  obtain ⟨properties, above, below⟩ := d
  rw [toDescriptor_eq, ← mapM_eq_ok_iff, ← mapM_eq_ok_iff]
  cases a.overlays.mapM slotDescriptor with
  | error e =>
      constructor
      · intro h
        cases h
      · rintro ⟨-, hover, -⟩
        cases hover
  | ok overlays =>
      cases a.underlays.mapM slotDescriptor with
      | error e =>
          constructor
          · intro h
            cases h
          · rintro ⟨-, -, hunder⟩
            cases hunder
      | ok underlays =>
          constructor
          · intro h
            cases h
            exact ⟨rfl, rfl, rfl⟩
          · rintro ⟨rfl, hover, hunder⟩
            cases hover
            cases hunder
            rfl

end Canonical

namespace Registry

variable {r r' r'' : Registry} {a b : Handle} {id : ContentId} {out : Multiset Handle}
  {d : Descriptor} {xs ys : List WireState} {S : Set WireState} {handles : List Handle}

/-! ## Instances and trees -/

theorem Balanced.contentId_of_ledger (h : r.Balanced out) (id : ContentId) (s : WireState)
    (hs : r.ledger id = some s) : s.contentId = id := by
  obtain ⟨a, ha, rfl⟩ := Option.map_eq_some_iff.mp hs
  rw [← h.sound.hashed id a ha, h.sound.named id a ha]

/-- The editable copy of a registered instance is what the registry's ledger unfolds
its name into. -/
theorem Balanced.toDescriptor_eq_ok_iff (h : r.Balanced out) (ha : r.find? id = some a) :
    a.toDescriptor = .ok d ↔ r.ledger.Unfolds id d := by
  induction d using Descriptor.induction_on_children generalizing id a with
  | step d ih =>
      have hslot (s : Slot Serial) (hs : s ∈ a.slots) (c : Descriptor) (hc : c ∈ d.children) :
          Canonical.slotDescriptor s = .ok c ↔ r.ledger.Unfolds s.id c := by
        obtain ⟨b, rfl, hb, -⟩ := h.exists_part ha hs
        exact ih c hc hb
      have hall {slots : List (Slot Serial)} {ds : List Descriptor} (hslots : slots ⊆ a.slots)
          (hds : ds ⊆ d.children) :
          List.Forall₂ (fun s c => Canonical.slotDescriptor s = .ok c) slots ds ↔
            List.Forall₂ r.ledger.Unfolds (slots.map Slot.id) ds := by
        rw [List.forall₂_map_left_iff]
        exact forall₂_congr fun s hs c hc => hslot s (hslots hs) c (hds hc)
      have hledger : r.ledger id = some a.toState := by
        rw [ledger, ha]
        rfl
      rw [Canonical.toDescriptor_eq_ok_iff, Ledger.unfolds_iff, hledger,
        hall (List.subset_append_left _ _) (List.subset_append_left _ _),
        hall (List.subset_append_right _ _) (List.subset_append_right _ _)]
      constructor
      · exact fun hparts => ⟨a.toState, rfl, hparts⟩
      · rintro ⟨s, hs, hparts⟩
        obtain rfl := Option.some.inj hs
        exact hparts

/-! ## The name of what interning hands out -/

theorem id_internParts (h : r.Named) (properties : Properties) (overlays underlays : List Handle) :
    (r.internParts properties overlays underlays).2.id =
      WireState.contentId ⟨properties, overlays.map Canonical.id, underlays.map Canonical.id⟩ := by
  rw [internParts]
  split
  · next a ha => exact h _ a ha
  · rfl

mutual

theorem id_internTree (r : Registry) : ∀ (d : Descriptor) (out : Multiset Handle),
    r.Balanced out → (r.internTree d).2.id = d.state.contentId
  | ⟨properties, overlays, underlays⟩, out, h => by
      have hover := (internTrees_course r overlays out h).balanced h
      have hunder := (internTrees_course _ underlays _ hover).balanced hover
      rw [internTree, id_internParts hunder.sound.named, ids_internTrees r overlays out h,
        ids_internTrees _ underlays _ hover, Descriptor.state_eq]

theorem ids_internTrees (r : Registry) : ∀ (ds : List Descriptor) (out : Multiset Handle),
    r.Balanced out →
      (r.internTrees ds).2.map Canonical.id = ds.map fun d => d.state.contentId
  | [], _, _ => rfl
  | d :: ds, out, h => by
      have hd := (internTree_course r d out h).balanced h
      rw [internTrees, List.map_cons, List.map_cons, id_internTree r d out h,
        ids_internTrees _ ds _ hd]

end

/-! ## Handles beside a slot -/

/-- What something else holds as well does not lose its last holder. -/
theorem Balanced.letGo_of_held (h : r.Balanced (a ::ₘ out))
    (hheld : a ∈ r.allHeld (r.outside out)) : (r.letGo a.key a.id).2 = false := by
  have hs := h.sound
  rw [outside_cons] at hs
  obtain ⟨e, he, hkey⟩ := hs.entry_of_mem (Multiset.mem_cons_self a _)
  rw [letGo_eq_of_entry he hkey]
  by_cases hone : e.holders ≤ 1
  · exact absurd rfl (hs.no_parent_of_last he hone a hheld)
  · rw [if_neg hone]

theorem release_of_kept (hkept : (r.letGo a.key a.id).2 = false) :
    r.release a = (r.letGo a.key a.id).1 := by
  obtain ⟨serial, id, properties, overlays, underlays⟩ := a
  have hkept : (r.letGo serial id).2 = false := hkept
  rw [release]
  simp only [hkept, Bool.false_eq_true, if_false]
  rfl

/-- Giving up handles to parts of registered instances removes and announces nothing. -/
theorem Balanced.releaseAll_of_parts (h : r.Balanced (handles + out))
    (hparts : ∀ b ∈ handles, ∃ a, r.find? a.id = some a ∧ b ∈ a.parts) :
    (r.releaseAll handles).find? = r.find? ∧ (r.releaseAll handles).outbox = r.outbox := by
  induction handles generalizing r with
  | nil => exact ⟨rfl, rfl⟩
  | cons b handles ih =>
      rw [coe_cons_add] at h
      obtain ⟨a, ha, hb⟩ := hparts b List.mem_cons_self
      have hheld : b ∈ r.allHeld (r.outside (handles + out)) := by
        refine Multiset.mem_add.mpr (Or.inr (Multiset.mem_bind.mpr ⟨a, ?_, hb⟩))
        exact Multiset.mem_coe.mpr (h.sound.named.mem_live_iff.mpr ha)
      have hkept := h.letGo_of_held hheld
      have hbalanced := (release_course r b _ h).balanced h
      rw [release_of_kept hkept] at hbalanced
      have hfind := find?_letGo_of_kept hkept
      obtain ⟨hfinds, houtbox⟩ := ih hbalanced fun c hc => by
        rw [hfind]
        exact hparts c (List.mem_cons_of_mem _ hc)
      rw [releaseAll, List.foldl_cons, release_of_kept hkept, ← releaseAll]
      exact ⟨hfinds.trans hfind, houtbox.trans (outbox_letGo_of_kept hkept)⟩

/-! ## What a registry lacks -/

/-- Those of these states whose names are not registered, each once, in the order in
which they come first. -/
def missing (r : Registry) (states : List WireState) : List WireState :=
  (states.filter fun s => !r.contains s.contentId).eraseDups

/-- The announcement of a new state. -/
def added (s : WireState) : OutboundEvent := .message (.added ⟨s.contentId, s⟩)

/-- The announcement that an instance has been removed. -/
def removed (id : ContentId) : OutboundEvent := .message (.removed ⟨id⟩)

/-- The second registry has these states besides all that the first has, and what was
missing has been announced. -/
structure Enriches (r : Registry) (states : List WireState) (r' : Registry) : Prop where
  kept : ∀ id a, r.find? id = some a → r'.find? id = some a
  ledger : ∀ id s, r'.ledger id = some s ↔ r.ledger id = some s ∨ s ∈ states ∧ s.contentId = id
  waiting : r'.outbox.waiting.toList = r.outbox.waiting.toList ++ (r.missing states).map added

theorem Enriches.nil (r : Registry) : r.Enriches [] r where
  kept _ _ ha := ha
  ledger id s := by simp
  waiting := by simp [missing]

/-- What has been added is not missing any more. -/
theorem Enriches.missing_append (h : r.Enriches xs r')
    (hinj : {s | s ∈ xs ++ ys}.InjOn WireState.contentId) :
    r.missing (xs ++ ys) = r.missing xs ++ r'.missing ys := by
  -- a name that is registered by now was so before, or its state is one of the first
  have hcontains (s : WireState) (hs : s ∈ ys) :
      r'.contains s.contentId = (r.contains s.contentId || decide (s ∈ xs)) := by
    rw [Bool.eq_iff_iff, Bool.or_eq_true, decide_eq_true_iff, ← isSome_ledger, ← isSome_ledger,
      Option.isSome_iff_exists, Option.isSome_iff_exists]
    constructor
    · rintro ⟨t, ht⟩
      rcases (h.ledger _ t).mp ht with hold | ⟨hnew, heq⟩
      · exact Or.inl ⟨t, hold⟩
      · rw [← hinj (List.mem_append_left _ hnew) (List.mem_append_right _ hs) heq]
        exact Or.inr hnew
    · rintro (⟨t, ht⟩ | hmem)
      · exact ⟨t, (h.ledger _ t).mpr (Or.inl ht)⟩
      · exact ⟨s, (h.ledger _ s).mpr (Or.inr ⟨hmem, rfl⟩)⟩
  rw [missing, List.filter_append, List.eraseDups_append, missing, missing, List.removeAll,
    List.filter_filter]
  congr 2
  refine List.filter_congr fun s hs => ?_
  rw [hcontains s hs]
  cases hknown : r.contains s.contentId <;> simp [hknown]

theorem Enriches.append (h : r.Enriches xs r') (h' : r'.Enriches ys r'')
    (hinj : {s | s ∈ xs ++ ys}.InjOn WireState.contentId) : r.Enriches (xs ++ ys) r'' where
  kept id a ha := h'.kept id a (h.kept id a ha)
  ledger id s := by
    rw [h'.ledger, h.ledger, List.mem_append, or_and_right, or_assoc]
  waiting := by
    rw [h'.waiting, h.waiting, h.missing_append hinj, List.map_append, List.append_assoc]

/-- Finding a registered state adds nothing. -/
theorem Enriches.of_known {s : WireState} (hs : r.ledger s.contentId = some s)
    (hfind : r'.find? = r.find?) (houtbox : r'.outbox = r.outbox) : r.Enriches [s] r' where
  kept id a ha := by rwa [hfind]
  ledger id t := by
    rw [ledger_eq_of_find?_eq hfind, List.mem_singleton]
    constructor
    · exact Or.inl
    · rintro (ht | ⟨rfl, rfl⟩)
      · exact ht
      · exact hs
  waiting := by
    have hcontains : r.contains s.contentId = true := by
      rw [← isSome_ledger, hs, Option.isSome_some]
    rw [houtbox]
    simp [missing, hcontains]

/-- A new instance adds its state. -/
theorem Enriches.register (hopen : r.outbox.isOpen = true) (hnew : r.find? a.id = none)
    (hhash : a.id = a.toState.contentId) : r.Enriches [a.toState] (r.register a) where
  kept id b hb := by
    rw [find?_register, if_neg, hb]
    rintro rfl
    rw [hnew] at hb
    cases hb
  ledger id s := by
    rw [ledger_register, Ledger.apply, Function.update_apply, List.mem_singleton, hhash]
    by_cases hid : id = a.toState.contentId
    · have hnone : r.ledger id = none := by
        rw [Registry.ledger, hid, ← hhash, hnew]
        rfl
      rw [if_pos hid, hnone]
      constructor
      · intro heq
        obtain rfl := Option.some.inj heq
        exact Or.inr ⟨rfl, hid.symm⟩
      · rintro (heq | ⟨rfl, -⟩)
        · cases heq
        · rfl
    · rw [if_neg hid]
      constructor
      · exact Or.inl
      · rintro (hs | ⟨rfl, heq⟩)
        · exact hs
        · exact absurd heq.symm hid
  waiting := by
    have hcontains : r.contains a.toState.contentId = false := by
      rw [contains_eq_isSome_find?, ← hhash, hnew]
      rfl
    have hmissing : r.missing [a.toState] = [a.toState] := by
      simp [missing, hcontains, List.eraseDups_cons]
    rw [hmissing, List.map_singleton, added, ← hhash]
    exact waiting_announce hopen _

/-! ## Interning adds the states of a tree -/

/-- All states of the registry are in the set. -/
def StatesIn (r : Registry) (S : Set WireState) : Prop := ∀ id s, r.ledger id = some s → s ∈ S

theorem Enriches.statesIn (h : r.Enriches xs r') (hr : r.StatesIn S) (hxs : ∀ s ∈ xs, s ∈ S) :
    r'.StatesIn S := by
  intro id s hs
  rcases (h.ledger id s).mp hs with hs | ⟨hs, -⟩
  · exact hr id s hs
  · exact hxs s hs

/-- If a registered instance has the state that these handles would make, they are
handles to its parts. -/
theorem Balanced.mem_parts_of_mem_references (h : r.Balanced out) (ha : r.find? id = some a)
    (hb : r.find? b.id = some b) (href : b.id ∈ a.toState.references) : b ∈ a.parts := by
  rw [Canonical.references_toState (h.sound.full id a ha), List.mem_map] at href
  obtain ⟨c, hc, hid⟩ := href
  have hfound := h.sound.find?_of_mem_parts ha hc
  rw [hid, hb] at hfound
  obtain rfl := Option.some.inj hfound
  exact hc

theorem enriches_internParts (hS : S.InjOn WireState.contentId) {properties : Properties}
    {overlays underlays : List Handle} (h : r.Balanced (overlays + (underlays + out)))
    (hr : r.StatesIn S) {s : WireState} (hs : s ∈ S)
    (heq : s = ⟨properties, overlays.map Canonical.id, underlays.map Canonical.id⟩) :
    r.Enriches [s] (r.internParts properties overlays underlays).1 := by
  let candidate := Canonical.ofParts r.nextSerial properties overlays underlays
  have hstate : candidate.toState = s := by
    rw [heq]
    simp only [candidate, Canonical.ofParts, Canonical.toState, Canonical.properties,
      Canonical.overlays, Canonical.underlays, List.map_map]
    rfl
  have hid : candidate.id = s.contentId := (Canonical.id_ofParts ..).trans (by rw [hstate])
  rw [internParts]
  cases hfound : r.find? candidate.id with
  | none =>
      rw [← hstate]
      exact .register h.isOpen hfound (Canonical.id_ofParts ..)
  | some a =>
      -- the instance has the same state, so its slots hold what the handles stand for
      have hledger : r.ledger s.contentId = some a.toState := by
        rw [ledger, ← hid, hfound]
        rfl
      have hname := h.contentId_of_ledger _ _ hledger
      have hsame : a.toState = s := hS (hr _ _ hledger) hs hname
      rw [hsame] at hledger
      let found : Registry := { r.retain a with deduplicated := r.deduplicated + 1 }
      have hfind : found.find? = r.find? := funext (find?_retain r a)
      have hself : r.find? a.id = some a := by rw [h.sound.named _ _ hfound, hfound]
      have hbalanced : found.Balanced ((overlays ++ underlays : List Handle) + a ::ₘ out) := by
        have hretain : Legal r (overlays + (underlays + out)) (.retain a) _ := .retain hself
        rw [← Multiset.coe_add, add_assoc, Multiset.add_cons, Multiset.add_cons]
        exact (h.perform hretain).perform .reuse
      have hreferences : s.references = (overlays ++ underlays).map Canonical.id := by
        rw [heq, WireState.references, List.map_append]
      obtain ⟨hfinds, houtbox⟩ := hbalanced.releaseAll_of_parts fun b hb => by
        rw [hfind]
        have hmem : b ∈ (overlays + (underlays + out) : Multiset Handle) := by
          rw [← add_assoc, Multiset.coe_add]
          exact Multiset.mem_add.mpr (Or.inl (Multiset.mem_coe.mpr hb))
        refine ⟨a, hself, h.mem_parts_of_mem_references hself (h.find?_of_mem hmem) ?_⟩
        rw [hsame, hreferences]
        exact List.mem_map_of_mem hb
      rw [releaseAll, List.foldl_append, ← releaseAll, ← releaseAll] at hfinds houtbox
      exact .of_known hledger (hfinds.trans hfind) houtbox

mutual

/-- If nothing that matters is hashed alike, interning adds the states of the tree. -/
theorem enriches_internTree (hS : S.InjOn WireState.contentId) (r : Registry) :
    ∀ (d : Descriptor) (out : Multiset Handle), r.Balanced out → r.StatesIn S →
      (∀ s ∈ d.states, s ∈ S) → r.Enriches d.states (r.internTree d).1
  | ⟨properties, overlays, underlays⟩, out, h, hr, hd => by
      have hinj {xs : List WireState} (hxs : ∀ s ∈ xs, s ∈ Descriptor.states ⟨properties, overlays,
          underlays⟩) : {s | s ∈ xs}.InjOn WireState.contentId :=
        hS.mono fun s hs => hd s (hxs s hs)
      rw [Descriptor.states] at hd hinj ⊢
      simp only [List.mem_append, List.mem_singleton] at hd
      have hcourse := internTrees_course r overlays out h
      have hbalanced := hcourse.balanced h
      have hover := enriches_internTrees hS r overlays out h hr fun s hs => hd s (Or.inl hs)
      have hr' := hover.statesIn hr fun s hs => hd s (Or.inl hs)
      have hcourse' := internTrees_course _ underlays _ hbalanced
      have hbalanced' := hcourse'.balanced hbalanced
      have hunder := enriches_internTrees hS _ underlays _ hbalanced hr'
        fun s hs => hd s (Or.inr (Or.inl hs))
      have hr'' := hunder.statesIn hr' fun s hs => hd s (Or.inr (Or.inl hs))
      rw [add_left_comm] at hbalanced'
      have hparts := enriches_internParts hS hbalanced' hr'' (hd _ (Or.inr (Or.inr rfl))) (by
        rw [ids_internTrees r overlays out h, ids_internTrees _ underlays _ hbalanced,
          Descriptor.state_eq])
      exact hover.append (hunder.append hparts (hinj fun s hs => List.mem_append_right _ hs))
        (hinj fun s hs => hs)

theorem enriches_internTrees (hS : S.InjOn WireState.contentId) (r : Registry) :
    ∀ (ds : List Descriptor) (out : Multiset Handle), r.Balanced out → r.StatesIn S →
      (∀ s ∈ Descriptor.statesOf ds, s ∈ S) →
        r.Enriches (Descriptor.statesOf ds) (r.internTrees ds).1
  | [], _, _, _, _ => .nil r
  | d :: ds, out, h, hr, hds => by
      rw [Descriptor.statesOf] at hds ⊢
      have hfirst (s : WireState) (hs : s ∈ d.states) : s ∈ S := hds s (List.mem_append_left _ hs)
      have hd := enriches_internTree hS r d out h hr hfirst
      have hrest := enriches_internTrees hS _ ds _ ((internTree_course r d out h).balanced h)
        (hd.statesIn hr hfirst) fun s hs => hds s (List.mem_append_right _ hs)
      exact hd.append hrest (hS.mono hds)

end

/-! ## Interning again -/

/-- A registry that is in use tells all its states apart. -/
theorem Balanced.injOn_ledger (h : r.Balanced out) :
    {s | ∃ id, r.ledger id = some s}.InjOn WireState.contentId := by
  rintro s ⟨id, hs⟩ t ⟨id', ht⟩ heq
  rw [h.contentId_of_ledger id s hs, h.contentId_of_ledger id' t ht] at heq
  rw [heq, ht] at hs
  exact (Option.some.inj hs).symm

/-- Interning the editable copy of a registered instance gives that instance and
announces nothing. -/
theorem Balanced.internTree_of_registered (h : r.Balanced out) (ha : r.find? a.id = some a)
    (hd : a.toDescriptor = .ok d) :
    (r.internTree d).2 = a ∧ (r.internTree d).1.outbox.waiting = r.outbox.waiting := by
  obtain ⟨hroot, hstates⟩ := ((h.toDescriptor_eq_ok_iff ha).mp hd).states h.contentId_of_ledger
  have hadded := enriches_internTree h.injOn_ledger r d out h (fun id s hs => ⟨id, hs⟩)
    fun s hs => ⟨_, hstates s hs⟩
  constructor
  · have hfound := ((internTree_course r d out h).balanced h).find?_of_mem
      (Multiset.mem_cons_self _ _)
    have hid : (r.internTree d).2.id = a.id := by
      rw [id_internTree r d out h, h.contentId_of_ledger _ _ hroot]
    rw [hid, hadded.kept a.id a ha] at hfound
    exact (Option.some.inj hfound).symm
  · have hnone : r.missing d.states = [] := by
      have hknown : d.states.filter (fun s => !r.contains s.contentId) = [] := by
        refine List.filter_eq_nil_iff.mpr fun s hs => ?_
        rw [← isSome_ledger, hstates s hs]
        simp
      rw [missing, hknown, List.eraseDups_nil]
    rw [← Array.toList_inj, hadded.waiting, hnone, List.map_nil, List.append_nil]

end Registry
end AppearanceSync
