import AppearanceSync.Proofs.Entrywise
import AppearanceSync.Proofs.Identity
import AppearanceSync.Proofs.Ledger
import AppearanceSync.Proofs.Snapshot
import Mathlib.Data.Finset.Card
import Mathlib.Logic.Relation

/-!
# Trees that a ledger unfolds into

A ledger names what an appearance is made of by ids.  Looking the ids up, again and
again, unfolds an appearance into a tree.  There is at most one such tree, and it is
found exactly if all states of the tree are known.  In a table where nothing refers to
itself, directly or through others, every reference leads to an appearance of lower
rank.
-/

namespace AppearanceSync

namespace Descriptor

mutual

/-- The states of a tree from the leaves up: those of what is drawn over it, those of
what is drawn under it, and its own. -/
def states : Descriptor → List WireState
  | ⟨properties, overlays, underlays⟩ =>
    statesOf overlays ++ (statesOf underlays ++ [state ⟨properties, overlays, underlays⟩])

/-- The states of these trees in order. -/
def statesOf : List Descriptor → List WireState
  | [] => []
  | d :: ds => d.states ++ statesOf ds

end

theorem statesOf_eq_flatMap (ds : List Descriptor) : statesOf ds = ds.flatMap states := by
  induction ds with
  | nil => rfl
  | cons d ds ih => rw [statesOf, ih, List.flatMap_cons]

theorem states_eq (d : Descriptor) : d.states = d.children.flatMap states ++ [d.state] := by
  obtain ⟨properties, overlays, underlays⟩ := d
  rw [states, statesOf_eq_flatMap, statesOf_eq_flatMap, children, List.flatMap_append,
    List.append_assoc]

theorem state_mem_states (d : Descriptor) : d.state ∈ d.states := by
  rw [states_eq]
  exact List.mem_append_right _ (List.mem_singleton.mpr rfl)

theorem states_subset_of_mem_children {c d : Descriptor} (hc : c ∈ d.children) :
    c.states ⊆ d.states := by
  intro s hs
  rw [d.states_eq]
  exact List.mem_append_left _ (List.mem_flatMap.mpr ⟨c, hc, hs⟩)

end Descriptor

namespace Ledger

variable {K : Ledger} {id ref : ContentId}

/-- The state of one id refers to another id. -/
def Refers (K : Ledger) (id ref : ContentId) : Prop :=
  ∃ state, K id = some state ∧ ref ∈ state.references

/-- Nothing refers to itself, directly or through others. -/
def Acyclic (K : Ledger) : Prop := ∀ id, ¬Relation.TransGen K.Refers id id

/-- A rank that falls along references rules out cycles. -/
theorem acyclic_of_rank (rank : ContentId → ℕ)
    (h : ∀ id ref, K.Refers id ref → rank ref < rank id) : K.Acyclic := by
  have key (id ref : ContentId) (hway : Relation.TransGen K.Refers id ref) :
      rank ref < rank id := by
    induction hway with
    | single href => exact h _ _ href
    | tail _ href ih => exact (h _ _ href).trans ih
  intro id hcycle
  exact Nat.lt_irrefl _ (key id id hcycle)

/-! ## Unfolding -/

mutual

/-- The tree is what an id unfolds into. -/
def Unfolds (K : Ledger) (id : ContentId) : Descriptor → Prop
  | ⟨properties, overlays, underlays⟩ =>
    ∃ state, K id = some state ∧ state.properties = properties ∧
      K.UnfoldsAll state.overlays overlays ∧ K.UnfoldsAll state.underlays underlays

/-- The trees are what these ids unfold into, in order. -/
def UnfoldsAll (K : Ledger) : List ContentId → List Descriptor → Prop
  | ids, [] => ids = []
  | ids, d :: ds => ∃ id rest, ids = id :: rest ∧ K.Unfolds id d ∧ K.UnfoldsAll rest ds

end

theorem unfoldsAll_iff {ids : List ContentId} {ds : List Descriptor} :
    K.UnfoldsAll ids ds ↔ List.Forall₂ K.Unfolds ids ds := by
  induction ds generalizing ids with
  | nil => rw [UnfoldsAll, List.forall₂_nil_right_iff]
  | cons d ds ih =>
      rw [UnfoldsAll, List.forall₂_cons_right_iff]
      constructor
      · rintro ⟨id, rest, rfl, hd, hds⟩
        exact ⟨id, rest, hd, ih.mp hds, rfl⟩
      · rintro ⟨id, rest, hd, hds, rfl⟩
        exact ⟨id, rest, rfl, hd, ih.mpr hds⟩

theorem unfolds_iff {d : Descriptor} :
    K.Unfolds id d ↔
      ∃ state, K id = some state ∧ state.properties = d.properties ∧
        List.Forall₂ K.Unfolds state.overlays d.overlays ∧
        List.Forall₂ K.Unfolds state.underlays d.underlays := by
  obtain ⟨properties, overlays, underlays⟩ := d
  simp only [Unfolds, unfoldsAll_iff]

/-- An id unfolds into one tree at most. -/
theorem Unfolds.unique {d d' : Descriptor} (h : K.Unfolds id d) (h' : K.Unfolds id d') :
    d = d' := by
  induction d using Descriptor.induction_on_children generalizing id d' with
  | step d ih =>
      obtain ⟨state, hstate, hproperties, hover, hunder⟩ := unfolds_iff.mp h
      obtain ⟨state', hstate', hproperties', hover', hunder'⟩ := unfolds_iff.mp h'
      obtain rfl : state = state' := Option.some.inj (hstate.symm.trans hstate')
      have hovers := eq_of_forall₂ hover hover'
        fun c hc _ _ hx hz => ih c (List.mem_append_left _ hc) hx hz
      have hunders := eq_of_forall₂ hunder hunder'
        fun c hc _ _ hx hz => ih c (List.mem_append_right _ hc) hx hz
      cases d
      cases d'
      rw [Descriptor.mk.injEq]
      exact ⟨hproperties.symm.trans hproperties', hovers, hunders⟩

/-! ## Trees whose states are known -/

/-- A ledger that names states by their hashes unfolds a name into a tree only if it
has all states of the tree. -/
theorem Unfolds.states (hK : ∀ id s, K id = some s → s.contentId = id) {d : Descriptor}
    (h : K.Unfolds id d) : K id = some d.state ∧ ∀ s ∈ d.states, K s.contentId = some s := by
  induction d using Descriptor.induction_on_children generalizing id with
  | step d ih =>
      obtain ⟨state, hstate, hproperties, hover, hunder⟩ := unfolds_iff.mp h
      have hname (c : Descriptor) (hc : c ∈ d.children) (ref : ContentId) (href : K.Unfolds ref c) :
          ref = c.state.contentId := (hK ref _ (ih c hc href).1).symm
      have hovers := eq_map_of_forall₂ hover fun c hc => hname c (List.mem_append_left _ hc)
      have hunders := eq_map_of_forall₂ hunder fun c hc => hname c (List.mem_append_right _ hc)
      have heq : state = d.state := by
        rw [d.state_eq, ← hproperties, ← hovers, ← hunders]
      rw [heq] at hstate
      refine ⟨hstate, fun s hs => ?_⟩
      rw [d.states_eq, List.mem_append, List.mem_singleton] at hs
      rcases hs with hs | rfl
      · obtain ⟨c, hc, hs⟩ := List.mem_flatMap.mp hs
        have hpart : ∃ ref, K.Unfolds ref c := by
          rcases List.mem_append.mp hc with hc | hc
          · exact exists_of_mem_forall₂ (R := flip K.Unfolds) hover.flip hc
          · exact exists_of_mem_forall₂ (R := flip K.Unfolds) hunder.flip hc
        obtain ⟨ref, href⟩ := hpart
        exact (ih c hc href).2 s hs
      · rw [hK id _ hstate, hstate]

/-- If a ledger has all states of a tree under their names, it unfolds into the tree. -/
theorem unfolds_of_states {d : Descriptor} (h : ∀ s ∈ d.states, K s.contentId = some s) :
    K.Unfolds d.state.contentId d := by
  induction d using Descriptor.induction_on_children with
  | step d ih =>
      have hchild (c : Descriptor) (hc : c ∈ d.children) : K.Unfolds c.state.contentId c :=
        ih c hc fun s hs => h s (Descriptor.states_subset_of_mem_children hc hs)
      refine unfolds_iff.mpr ⟨d.state, h _ d.state_mem_states, ?_, ?_, ?_⟩
      · rw [d.state_eq]
      · rw [d.state_eq, List.forall₂_map_left_iff, List.forall₂_same]
        exact fun c hc => hchild c (List.mem_append_left _ hc)
      · rw [d.state_eq, List.forall₂_map_left_iff, List.forall₂_same]
        exact fun c hc => hchild c (List.mem_append_right _ hc)

end Ledger

namespace Snapshot

variable {table : Snapshot} {id ref : ContentId}

/-- A table of appearances under their own names, in which there is all that they
refer to and nothing that refers to itself. -/
structure Complete (table : Snapshot) : Prop where
  named : ∀ e ∈ table.entries, e.2.contentId = e.1
  closed : (Ledger.ofTable table).Closed
  acyclic : (Ledger.ofTable table).Acyclic

theorem ofTable_eq_some_iff {state : WireState} :
    Ledger.ofTable table id = some state ↔ (id, state) ∈ table.entries :=
  lookup_eq_some_iff table.pairwise_ne

/-- A table is complete if every reference leads to an entry of lower rank. -/
theorem complete_of_rank (rank : ContentId → ℕ) (hnamed : ∀ e ∈ table.entries, e.2.contentId = e.1)
    (hlower : ∀ e ∈ table.entries, ∀ ref ∈ e.2.references,
      ref ∈ table.ids ∧ rank ref < rank e.1) : table.Complete := by
  refine ⟨hnamed, ?_, Ledger.acyclic_of_rank rank ?_⟩
  · intro id state hstate ref href
    obtain ⟨hlisted, -⟩ := hlower (id, state) (ofTable_eq_some_iff.mp hstate) ref href
    obtain ⟨e, he, rfl⟩ := List.mem_map.mp hlisted
    rw [ofTable_eq_some_iff.mpr he, Option.isSome_some]
  · rintro id ref ⟨state, hstate, href⟩
    exact (hlower (id, state) (ofTable_eq_some_iff.mp hstate) ref href).2

open Classical in
/-- The number of ids in the table to which an id refers, directly or through others. -/
noncomputable def rank (table : Snapshot) (id : ContentId) : ℕ :=
  (table.ids.toFinset.filter fun ref => Relation.TransGen (Ledger.ofTable table).Refers id ref).card

/-- References lead to appearances of lower rank. -/
theorem Complete.rank_lt (h : table.Complete) (href : (Ledger.ofTable table).Refers id ref) :
    table.rank ref < table.rank id := by
  classical
  obtain ⟨state, hstate, hmem⟩ := href
  obtain ⟨state', hstate'⟩ := Option.isSome_iff_exists.mp (h.closed id state hstate ref hmem)
  have hlisted : ref ∈ table.ids.toFinset :=
    List.mem_toFinset.mpr (List.mem_map.mpr ⟨_, ofTable_eq_some_iff.mp hstate', rfl⟩)
  -- what `ref` leads to is also reached from `id`, and so is `ref`, which does not reach itself
  refine Finset.card_lt_card (Finset.ssubset_iff_subset_ne.mpr ⟨?_, ?_⟩)
  · intro other hother
    obtain ⟨hin, hway⟩ := Finset.mem_filter.mp hother
    exact Finset.mem_filter.mpr ⟨hin, .head ⟨state, hstate, hmem⟩ hway⟩
  · intro heq
    have hself : ref ∈ table.ids.toFinset.filter fun other =>
        Relation.TransGen (Ledger.ofTable table).Refers id other :=
      Finset.mem_filter.mpr ⟨hlisted, .single ⟨state, hstate, hmem⟩⟩
    rw [← heq] at hself
    exact h.acyclic ref (Finset.mem_filter.mp hself).2

end Snapshot
end AppearanceSync
