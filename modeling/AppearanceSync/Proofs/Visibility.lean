import AppearanceSync.Proofs.Scene.Liveness
import AppearanceSync.Proofs.Unfolding
import AppearanceSync.Visibility
import Mathlib.Algebra.Order.Group.Abs
import Mathlib.Algebra.Order.Group.Int

/-!
# What is visible is what can be reached

A viewer needs the appearances of the sprites around it and everything to which these refer.
One walk with one set finds all of it.  What is in the set was put there by a sprite before, or
by the sprite that is looked at; at any time its references are in the set as well, or wait on
the stack.  When the stack is empty the set is closed, so leaving out what is in the set loses
nothing.
-/

namespace AppearanceSync

open Relation (ReflTransGen)

theorem IdSet.mem_insert_iff {seen : IdSet} {id other : ContentId} :
    other ∈ seen.insert id ↔ other = id ∨ other ∈ seen := by
  rw [Std.TreeSet.mem_insert, Std.LawfulEqCmp.compare_eq_iff_eq, eq_comm]

namespace Ledger

variable {K : Ledger} {seen : IdSet} {listed more : List ContentId} {id ref : ContentId}

/-- What a set refers to is in the set, or is listed. -/
def ClosedUpTo (K : Ledger) (seen : IdSet) (listed : List ContentId) : Prop :=
  ∀ id ∈ seen, ∀ ref, K.Refers id ref → ref ∈ seen ∨ ref ∈ listed

/-- What is in the set need not be listed. -/
theorem ClosedUpTo.skip (h : K.ClosedUpTo seen (id :: listed)) (hid : id ∈ seen) :
    K.ClosedUpTo seen listed := by
  intro other hother ref href
  obtain hold | hlisted := h other hother ref href
  · exact Or.inl hold
  · obtain rfl | hlisted := List.mem_cons.mp hlisted
    · exact Or.inl hid
    · exact Or.inr hlisted

/-- What is listed can be put into the set if its own references are listed for it. -/
theorem ClosedUpTo.visit (h : K.ClosedUpTo seen (id :: listed))
    (hrefs : ∀ ref, K.Refers id ref → ref ∈ more) :
    K.ClosedUpTo (seen.insert id) (more ++ listed) := by
  intro other hother ref href
  rw [IdSet.mem_insert_iff] at hother ⊢
  obtain rfl | hother := hother
  · exact Or.inr (List.mem_append_left _ (hrefs ref href))
  · obtain hold | hlisted := h other hother ref href
    · exact Or.inl (Or.inr hold)
    · obtain rfl | hlisted := List.mem_cons.mp hlisted
      · exact Or.inl (Or.inl rfl)
      · exact Or.inr (List.mem_append_right _ hlisted)

/-- A way out of such a set passes through what is listed. -/
theorem ClosedUpTo.mem_or_exists (h : K.ClosedUpTo seen listed) (hid : id ∈ seen)
    (hway : ReflTransGen K.Refers id ref) :
    ref ∈ seen ∨ ∃ start ∈ listed, ReflTransGen K.Refers start ref := by
  induction hway using ReflTransGen.head_induction_on with
  | refl => exact Or.inl hid
  | head hfirst hrest ih =>
      obtain hmem | hmem := h _ hid _ hfirst
      · exact ih hmem
      · exact Or.inr ⟨_, hmem, hrest⟩

end Ledger

namespace Registry

variable {r : Registry} {a : Handle} {id ref : ContentId} {out : Multiset Handle}

/-- A registered instance refers to what stands in its slots. -/
theorem Sound.refers_iff (h : r.Sound out) (ha : r.find? a.id = some a) :
    r.ledger.Refers a.id ref ↔ ref ∈ a.parts.map Canonical.id := by
  have hledger : r.ledger a.id = some a.toState := by
    rw [ledger, ha]
    rfl
  rw [← Canonical.references_toState (h.full _ _ ha)]
  constructor
  · rintro ⟨state, hstate, href⟩
    obtain rfl := Option.some.inj (hledger.symm.trans hstate)
    exact href
  · exact fun href => ⟨a.toState, hledger, href⟩

/-- What a registered appearance leads to is registered. -/
theorem Sound.contains_of_way (h : r.Sound out) (hid : r.contains id = true)
    (hway : ReflTransGen r.ledger.Refers id ref) : r.contains ref = true := by
  induction hway with
  | refl => exact hid
  | tail _ href ih =>
      rw [contains_eq_isSome_find?, Option.isSome_iff_exists] at ih ⊢
      obtain ⟨a, ha⟩ := ih
      obtain rfl := h.named _ a ha
      obtain ⟨b, hb, rfl⟩ := List.mem_map.mp ((h.refers_iff ha).mp href)
      exact ⟨b, h.find?_of_mem_parts ha hb⟩

/-- The walk adds what the instances on its stack lead to. -/
theorem Sound.mem_collect_iff (h : r.Sound out) {seen : IdSet} {stack : List Handle}
    (hstack : ∀ a ∈ stack, r.find? a.id = some a)
    (hclosed : r.ledger.ClosedUpTo seen (stack.map Canonical.id)) :
    id ∈ Canonical.collect seen stack ↔
      id ∈ seen ∨ ∃ a ∈ stack, ReflTransGen r.ledger.Refers a.id id := by
  induction seen, stack using Canonical.collect.induct with
  | case1 seen => simp [Canonical.collect]
  | case2 seen a rest hseen ih =>
      have hmem : a.id ∈ seen := Std.TreeSet.contains_iff_mem.mp hseen
      have hrest : r.ledger.ClosedUpTo seen (rest.map Canonical.id) := hclosed.skip hmem
      rw [Canonical.collect, if_pos hseen,
        ih (fun b hb => hstack b (List.mem_cons_of_mem _ hb)) hrest]
      constructor
      · rintro (hold | ⟨b, hb, hway⟩)
        · exact Or.inl hold
        · exact Or.inr ⟨b, List.mem_cons_of_mem _ hb, hway⟩
      · rintro (hold | ⟨b, hb, hway⟩)
        · exact Or.inl hold
        · obtain rfl | hb := List.mem_cons.mp hb
          · -- all below an instance that was seen is in the set or waits further down
            obtain hold | ⟨start, hstart, hway⟩ := hrest.mem_or_exists hmem hway
            · exact Or.inl hold
            · obtain ⟨c, hc, rfl⟩ := List.mem_map.mp hstart
              exact Or.inr ⟨c, hc, hway⟩
          · exact Or.inr ⟨b, hb, hway⟩
  | case3 seen a rest hnew ih =>
      have ha := hstack a List.mem_cons_self
      have hparts : ∀ b ∈ a.parts ++ rest, r.find? b.id = some b := by
        intro b hb
        obtain hb | hb := List.mem_append.mp hb
        · exact h.find?_of_mem_parts ha hb
        · exact hstack b (List.mem_cons_of_mem _ hb)
      have hnext := hclosed.visit fun ref href => (h.refers_iff ha).mp href
      rw [← List.map_append] at hnext
      rw [Canonical.collect, if_neg hnew, ih hparts hnext, IdSet.mem_insert_iff]
      constructor
      · rintro ((rfl | hold) | ⟨b, hb, hway⟩)
        · exact Or.inr ⟨a, List.mem_cons_self, .refl⟩
        · exact Or.inl hold
        · obtain hb | hb := List.mem_append.mp hb
          · exact Or.inr ⟨a, List.mem_cons_self,
              .head ((h.refers_iff ha).mpr (List.mem_map_of_mem hb)) hway⟩
          · exact Or.inr ⟨b, List.mem_cons_of_mem _ hb, hway⟩
      · rintro (hold | ⟨b, hb, hway⟩)
        · exact Or.inl (Or.inr hold)
        · obtain rfl | hb := List.mem_cons.mp hb
          · obtain rfl | ⟨ref, href, hrest⟩ := hway.cases_head
            · exact Or.inl (Or.inl rfl)
            · obtain ⟨c, hc, rfl⟩ := List.mem_map.mp ((h.refers_iff ha).mp href)
              exact Or.inr ⟨c, List.mem_append_left _ hc, hrest⟩
          · exact Or.inr ⟨b, List.mem_append_right _ hb, hway⟩

end Registry

namespace GridPosition

/-- The tiles are at most so far apart on both axes. -/
def Within (range : UInt32) (a b : GridPosition) : Prop :=
  |(a.x.toNat : ℤ) - b.x.toNat| ≤ range.toNat ∧ |(a.y.toNat : ℤ) - b.y.toNat| ≤ range.toNat

theorem near_iff (range a b : UInt32) :
    near range a b = true ↔ |(a.toNat : ℤ) - b.toNat| ≤ range.toNat := by
  rw [near, decide_eq_true_iff, abs_le]
  omega

theorem within_iff (range : UInt32) (a b : GridPosition) :
    a.within range b = true ↔ a.Within range b := by
  rw [within, Bool.and_eq_true, near_iff, near_iff, Within]

end GridPosition

namespace Visibility

variable {r : Registry} {origin : GridPosition} {range : UInt32} {sprites : List PlacedSprite}
  {seen : IdSet} {id : ContentId} {out : Multiset Handle}

/-- The appearance of a registered sprite in range leads to the id, by what registered
appearances refer to. -/
def Needed (r : Registry) (origin : GridPosition) (range : UInt32) (sprites : List PlacedSprite)
    (id : ContentId) : Prop :=
  ∃ s ∈ sprites, origin.Within range s.position ∧ r.contains s.appearance = true ∧
    ReflTransGen r.ledger.Refers s.appearance id

theorem mem_addSprite_iff (h : r.Sound out) (hclosed : r.ledger.ClosedUpTo seen [])
    (s : PlacedSprite) :
    id ∈ addSprite r origin range seen s ↔ id ∈ seen ∨ Needed r origin range [s] id := by
  have hneeded : Needed r origin range [s] id ↔ origin.Within range s.position ∧
      r.contains s.appearance = true ∧ ReflTransGen r.ledger.Refers s.appearance id := by
    simp [Needed]
  rw [hneeded, addSprite, ← GridPosition.within_iff]
  cases hrange : origin.within range s.position with
  | false => simp
  | true =>
      by_cases hseen : s.appearance ∈ seen
      · -- what the appearance leads to was found when it was put into the set
        have hskip : seen.contains s.appearance = true := Std.TreeSet.contains_iff_mem.mpr hseen
        simp only [hskip, Bool.or_true, if_true, true_and]
        refine (or_iff_left_of_imp ?_).symm
        rintro ⟨-, hway⟩
        obtain hmem | ⟨start, hstart, -⟩ := hclosed.mem_or_exists hseen hway
        · exact hmem
        · cases hstart
      · have hnew : seen.contains s.appearance = false := by
          rwa [← Bool.not_eq_true, Std.TreeSet.contains_iff_mem]
        simp only [hnew, Bool.not_true, Bool.or_false, Bool.false_eq_true, if_false, true_and]
        rw [Registry.contains_eq_isSome_find?]
        cases hfound : r.find? s.appearance with
        | none => simp
        | some a =>
            have hid : a.id = s.appearance := h.named _ a hfound
            have hstack : ∀ b ∈ [a], r.find? b.id = some b := by
              simp [hid, hfound]
            have hlisted : r.ledger.ClosedUpTo seen ([a].map Canonical.id) := by
              intro id hid ref href
              exact (hclosed id hid ref href).imp_right fun hmem => absurd hmem List.not_mem_nil
            simp only [h.mem_collect_iff hstack hlisted, List.mem_singleton, exists_eq_left, hid,
              Option.isSome_some, true_and]

theorem mem_foldl_addSprite_iff (h : r.Sound out) (hclosed : r.ledger.ClosedUpTo seen []) :
    id ∈ sprites.foldl (addSprite r origin range) seen ↔
      id ∈ seen ∨ Needed r origin range sprites id := by
  induction sprites generalizing seen with
  | nil => simp [Needed]
  | cons s sprites ih =>
      have hadded (id : ContentId) : id ∈ addSprite r origin range seen s ↔
          id ∈ seen ∨ Needed r origin range [s] id := mem_addSprite_iff h hclosed s
      have hnext : r.ledger.ClosedUpTo (addSprite r origin range seen s) [] := by
        intro id hid ref href
        left
        obtain hold | ⟨t, ht, hrange, hcontains, hway⟩ := (hadded id).mp hid
        · refine (hadded ref).mpr (Or.inl ?_)
          exact (hclosed id hold ref href).resolve_right List.not_mem_nil
        · exact (hadded ref).mpr (Or.inr ⟨t, ht, hrange, hcontains, hway.tail href⟩)
      rw [List.foldl_cons, ih hnext, hadded, or_assoc]
      refine or_congr_right ?_
      simp [Needed]

theorem mem_visibleFrom_iff (h : r.Sound out) :
    id ∈ visibleFrom r origin range sprites ↔ Needed r origin range sprites id := by
  have hempty : r.ledger.ClosedUpTo ∅ [] := by
    intro id hid
    simp at hid
  rw [visibleFrom, mem_foldl_addSprite_iff h hempty]
  simp

/-- A session is answered by what its last viewer can see. -/
theorem getElem?_compute (r : Registry) (viewers : List Viewer) (range : UInt32)
    (sprites : List PlacedSprite) (session : SessionId) :
    (compute r viewers range sprites)[session]? =
      (viewers.reverse.find? fun v => v.session = session).map fun v =>
        visibleFrom r v.position range sprites := by
  induction viewers using List.reverseRecOn with
  | nil => exact Std.TreeMap.getElem?_emptyc
  | append_singleton viewers v ih =>
      have hlast : compute r (viewers ++ [v]) range sprites =
          (compute r viewers range sprites).insert v.session
            (visibleFrom r v.position range sprites) := by
        rw [compute, List.foldl_append]
        rfl
      rw [hlast, Std.TreeMap.getElem?_insert, List.reverse_append, List.reverse_singleton,
        List.singleton_append, List.find?_cons]
      by_cases hsame : v.session = session
      · simp [hsame]
      · simp [hsame, ih]

/-- Where no two viewers share a session, each is answered by what it can see itself. -/
theorem getElem?_compute_eq_some_iff {viewers : List Viewer} {session : SessionId} {ids : IdSet}
    (hnodup : (viewers.map Viewer.session).Nodup) :
    (compute r viewers range sprites)[session]? = some ids ↔
      ∃ v ∈ viewers, v.session = session ∧ visibleFrom r v.position range sprites = ids := by
  rw [getElem?_compute, Option.map_eq_some_iff]
  constructor
  · rintro ⟨v, hfound, hids⟩
    have hv := List.mem_reverse.mp (List.mem_of_find?_eq_some hfound)
    exact ⟨v, hv, by simpa using List.find?_some hfound, hids⟩
  · rintro ⟨v, hv, rfl, hids⟩
    cases hfound : viewers.reverse.find? fun w => w.session = v.session with
    | none =>
        have hnone := List.find?_eq_none.mp hfound v (List.mem_reverse.mpr hv)
        simp at hnone
    | some w =>
        have hw := List.mem_reverse.mp (List.mem_of_find?_eq_some hfound)
        have hsame : w.session = v.session := by simpa using List.find?_some hfound
        obtain rfl := List.inj_on_of_nodup_map hnodup hw hv hsame
        exact ⟨w, rfl, hids⟩

end Visibility

namespace Scene

open Visibility

/-- In every run, a tile's viewer is told of exactly the ids to which the appearance of a
registered sprite in range leads.  So all that it is told of is registered, what this refers to
is among it, and neither the order of the sprites nor their repetition matters.  Viewers of
different sessions are each told of what their own tile needs. -/
theorem visible_iff_needed (maxDepth : ℕ) (acts : List Act) (origin : GridPosition)
    (range : UInt32) (sprites : List PlacedSprite) :
    let r := (run maxDepth acts).hub.registry
    let visible := visibleFrom r origin range sprites
    (∀ id, id ∈ visible ↔ Needed r origin range sprites id) ∧
    (∀ id ∈ visible, r.contains id = true) ∧
    (∀ id ∈ visible, ∀ ref, r.ledger.Refers id ref → ref ∈ visible) ∧
    (∀ sprites', (∀ s, s ∈ sprites' ↔ s ∈ sprites) →
      (visibleFrom r origin range sprites').toList = visible.toList) ∧
    ∀ viewers, (viewers.map Viewer.session).Nodup → ∀ session ids,
      (compute r viewers range sprites)[session]? = some ids ↔
        ∃ v ∈ viewers, v.session = session ∧ visibleFrom r v.position range sprites = ids := by
  intro r visible
  have hsound : r.Sound _ := (steady_run maxDepth acts).balanced.sound
  have hmem (id : ContentId) : id ∈ visible ↔ Needed r origin range sprites id :=
    mem_visibleFrom_iff hsound
  refine ⟨hmem, ?_, ?_, ?_, ?_⟩
  · intro id hid
    obtain ⟨s, -, -, hregistered, hway⟩ := (hmem id).mp hid
    exact hsound.contains_of_way hregistered hway
  · intro id hid ref href
    obtain ⟨s, hs, hrange, hregistered, hway⟩ := (hmem id).mp hid
    exact (hmem ref).mpr ⟨s, hs, hrange, hregistered, hway.tail href⟩
  · intro sprites' hsame
    have hequiv : (visibleFrom r origin range sprites').Equiv visible := by
      refine Std.TreeSet.Equiv.of_forall_mem_iff fun id => ?_
      rw [hmem, mem_visibleFrom_iff hsound]
      simp only [Needed, hsame]
    exact hequiv.toList_eq
  · intro viewers hnodup session ids
    exact getElem?_compute_eq_some_iff hnodup

end Scene
end AppearanceSync
