import AppearanceSync.Proofs.Registry.Deeds

/-!
# Courses of the registry's operations

Each operation of a registry is a course of legal deeds: it does exactly what its
deeds do, and it ends with the handles that it hands out or was given.
-/

namespace AppearanceSync
namespace Registry

open Canonical (partsOf)

variable {r : Registry} {out : Multiset Handle}

theorem coe_cons_add (a : Handle) (as : List Handle) (out : Multiset Handle) :
    ((a :: as : List Handle) + out : Multiset Handle) = a ::ₘ (as + out) := by
  rw [← Multiset.cons_coe, Multiset.cons_add]

/-! ## Giving handles up -/

mutual

theorem release_course (r : Registry) : ∀ (a : Handle) (out : Multiset Handle),
    r.Balanced (a ::ₘ out) → Course r (a ::ₘ out) (r.releaseDeeds a) (r.release a) out
  | .mk serial id properties overlays underlays, out, h => by
      let a : Handle := .mk serial id properties overlays underlays
      rw [releaseDeeds, release]
      by_cases hlast : (r.letGo serial id).2 = true
      · -- the parts of `a` are given out before its slots are let go
        have hd : Legal r (a ::ₘ out) (.letGo a) (a.parts + out) := .last hlast
        have hparts : (a.parts + out : Multiset Handle) =
            partsOf overlays + (partsOf underlays + out) := by
          rw [Canonical.parts, Canonical.slots, partsOf, List.filterMap_append,
            ← Multiset.coe_add, add_assoc]
          rfl
        have hs := h.perform hd
        rw [hparts] at hd hs
        have hover := releaseSlots_course (r.letGo serial id).1 overlays _ hs
        have hunder := releaseSlots_course _ underlays out (hover.balanced hs)
        simp only [hlast, if_true]
        exact .step hd (hover.append hunder)
      · have hkept : (r.letGo serial id).2 = false := by simpa using hlast
        have hd : Legal r (a ::ₘ out) (.letGo a) out := .keep hkept
        simp only [hkept, Bool.false_eq_true, if_false]
        exact .single hd

theorem releaseSlots_course (r : Registry) : ∀ (slots : List (Slot Serial)) (out : Multiset Handle),
    r.Balanced (partsOf slots + out) →
      Course r (partsOf slots + out) (r.releaseSlotsDeeds slots) (r.releaseSlots slots) out
  | [], out, _ => by
      simpa [partsOf, releaseSlotsDeeds, releaseSlots] using Course.refl r out
  | slot :: slots, out, h => by
      have hparts : (partsOf (slot :: slots) + out : Multiset Handle) =
          partsOf [slot] + (partsOf slots + out) := by
        rw [← add_assoc, Multiset.coe_add]
        cases slot <;> rfl
      rw [hparts] at h ⊢
      have hslot := releaseSlot_course r slot _ h
      exact hslot.append (releaseSlots_course _ slots out (hslot.balanced h))

theorem releaseSlot_course (r : Registry) : ∀ (slot : Slot Serial) (out : Multiset Handle),
    r.Balanced (partsOf [slot] + out) →
      Course r (partsOf [slot] + out) (r.releaseSlotDeeds slot) (r.releaseSlot slot) out
  | .pending id, out, _ => by
      have hparts : (partsOf [.pending id] : List Handle) = [] := rfl
      simpa [hparts, releaseSlotDeeds, releaseSlot] using Course.refl r out
  | .filled a, out, h => release_course r a out h

end

theorem releaseAll_course (r : Registry) (handles : List Handle) (out : Multiset Handle)
    (h : r.Balanced (handles + out)) :
    Course r (handles + out) (r.releaseAllDeeds handles) (r.releaseAll handles) out := by
  induction handles generalizing r with
  | nil => simpa [releaseAllDeeds, releaseAll] using Course.refl r out
  | cons a handles ih =>
      rw [coe_cons_add] at h ⊢
      have ha := release_course r a _ h
      exact ha.append (ih (r.release a) (ha.balanced h))

/-! ## Interning -/

theorem internParts_course (r : Registry) (properties : Properties) (overlays underlays : List Handle)
    (out : Multiset Handle) (h : r.Balanced (overlays + (underlays + out))) :
    Course r (overlays + (underlays + out)) (r.internPartsDeeds properties overlays underlays)
      (r.internParts properties overlays underlays).1
      ((r.internParts properties overlays underlays).2 ::ₘ out) := by
  let candidate := Canonical.ofParts r.nextSerial properties overlays underlays
  rw [internPartsDeeds, internParts]
  cases hfound : r.find? candidate.id with
  | some a =>
      -- the instance that is there gets a holder before the candidate's parts are given up
      have hid : a.id = candidate.id := h.sound.named _ _ hfound
      have hretain : Legal r (overlays + (underlays + out)) (.retain a)
          (a ::ₘ (overlays + (underlays + out))) := .retain (by rw [hid, hfound])
      have hs := (h.perform hretain).perform .reuse
      have hcomm : a ::ₘ (overlays + (underlays + out) : Multiset Handle) =
          overlays + (underlays + (a ::ₘ out)) := by
        rw [Multiset.add_cons, Multiset.add_cons]
      rw [hcomm] at hretain hs
      have hover := releaseAll_course _ overlays _ hs
      have hunder := releaseAll_course _ underlays _ (hover.balanced hs)
      simp only
      exact .step hretain (.step .reuse (hover.append hunder))
  | none =>
      have hparts : (overlays + (underlays + out) : Multiset Handle) = candidate.parts + out := by
        rw [Canonical.parts_ofParts, ← Multiset.coe_add, add_assoc]
      rw [hparts]
      simp only
      exact .single (.register rfl hfound (Canonical.id_ofParts ..)
        fun s hs => Canonical.isFilled_of_mem_slots_ofParts hs)

mutual

theorem internTree_course (r : Registry) : ∀ (d : Descriptor) (out : Multiset Handle),
    r.Balanced out →
      Course r out (r.internTreeDeeds d) (r.internTree d).1 ((r.internTree d).2 ::ₘ out)
  | ⟨properties, overlays, underlays⟩, out, h => by
      have hover := internTrees_course r overlays out h
      have hunder := internTrees_course _ underlays _ (hover.balanced h)
      have hs := hunder.balanced (hover.balanced h)
      rw [add_left_comm] at hunder hs
      exact hover.append (hunder.append (internParts_course _ properties _ _ out hs))

theorem internTrees_course (r : Registry) : ∀ (ds : List Descriptor) (out : Multiset Handle),
    r.Balanced out →
      Course r out (r.internTreesDeeds ds) (r.internTrees ds).1 ((r.internTrees ds).2 + out)
  | [], out, _ => by
      simpa [internTreesDeeds, internTrees] using Course.refl r out
  | d :: ds, out, h => by
      have hd := internTree_course r d out h
      have hds := internTrees_course _ ds _ (hd.balanced h)
      rw [Multiset.add_cons, ← coe_cons_add] at hds
      exact hd.append hds

end

/-- The handle that an operation hands out, if it does. -/
def handedOut (result : Except AppearanceError Handle) : List Handle :=
  match result with
  | .ok a => [a]
  | .error _ => []

theorem intern_course (r : Registry) (d : Descriptor) (out : Multiset Handle) (h : r.Balanced out) :
    Course r out (r.internDeeds d) (r.intern d).1 (handedOut (r.intern d).2 + out) := by
  rw [internDeeds, intern]
  cases hvalid : d.validate r.maxDepth with
  | error e => simpa [handedOut] using Course.refl r out
  | ok _ => simpa [handedOut] using internTree_course r d out h

theorem animate_course (r : Registry) (target : Target) (d : Descriptor) (params : PlayParams)
    (out : Multiset Handle) (h : r.Balanced out) :
    Course r out (r.animateDeeds target d params) (r.animate target d params).1
      (handedOut (r.animate target d params).2 + out) := by
  have hintern := intern_course r d out h
  rw [animateDeeds, animate]
  rcases hresult : r.intern d with ⟨r', e | a⟩
  · simpa [hresult] using hintern
  · rw [hresult] at hintern
    have ha := (hintern.balanced h).find?_of_mem (a := a) (by simp [handedOut])
    exact hintern.append (.single (.animate (by simp [ha])))

/-! ## Holding and joining -/

theorem retainAll_course (r : Registry) (handles : List Handle) (out : Multiset Handle)
    (h : ∀ a ∈ handles, r.find? a.id = some a) :
    Course r out (handles.map .retain) (handles.foldl retain r) (handles + out) := by
  induction handles generalizing r out with
  | nil => simpa using Course.refl r out
  | cons a handles ih =>
      have ha : Legal r out (.retain a) (a ::ₘ out) := .retain (h a (by simp))
      have hrest := ih (r.retain a) (a ::ₘ out) fun b hb => by
        rw [find?_retain]
        exact h b (by simp [hb])
      rw [Multiset.add_cons, ← coe_cons_add] at hrest
      exact .step ha hrest

theorem find?_foldl_retain (r : Registry) (handles : List Handle) :
    (handles.foldl retain r).find? = r.find? := by
  induction handles generalizing r with
  | nil => rfl
  | cons a handles ih =>
      rw [List.foldl_cons, ih]
      exact funext (find?_retain r a)

theorem join_course (r : Registry) (session : SessionId) (captured : List Handle)
    (out : Multiset Handle) (h : r.Balanced out)
    (hcaptured : (captured : Multiset Handle) = r.live) :
    Course r out (joinDeeds session captured) (r.joinWith session captured) out := by
  have hmem : ∀ a ∈ captured, r.find? a.id = some a := by
    intro a ha
    rw [← h.sound.named.mem_live_iff, ← Multiset.mem_coe, ← hcaptured]
    exact ha
  have hretain := retainAll_course r captured out hmem
  have hlive := live_eq_of_find?_eq h.sound.named (find?_foldl_retain r captured)
  rw [joinWith, if_pos h.isOpen]
  exact hretain.append (.single (.join (hcaptured.trans hlive.symm)))

end Registry
end AppearanceSync
