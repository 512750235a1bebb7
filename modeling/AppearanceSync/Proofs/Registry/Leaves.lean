import AppearanceSync.Proofs.Nesting
import AppearanceSync.Proofs.Registry.Interning

/-!
# Appearances without parts

Where nothing is drawn over or under anything, interning is to find or to register one instance,
and to give a handle up removes one instance at most.  So it can be said of each operation exactly
what it announces, whatever is hashed alike.
-/

namespace AppearanceSync

namespace Canonical

variable {κ : Type} {a : Canonical κ}

/-- Nothing is drawn over or under the appearance. -/
def IsLeaf (a : Canonical κ) : Prop := a.slots = []

theorem isLeaf_ofParts (key : κ) (properties : Properties) :
    (ofParts key properties [] []).IsLeaf := rfl

theorem IsLeaf.overlays_eq (h : a.IsLeaf) : a.overlays = [] := (List.append_eq_nil_iff.mp h).1

theorem IsLeaf.underlays_eq (h : a.IsLeaf) : a.underlays = [] := (List.append_eq_nil_iff.mp h).2

theorem IsLeaf.parts_eq (h : a.IsLeaf) : a.parts = [] := by
  rw [parts, h]
  rfl

theorem IsLeaf.toDescriptor (h : a.IsLeaf) :
    a.toDescriptor = .ok (.ofProperties a.properties) := by
  rw [toDescriptor_eq, h.overlays_eq, h.underlays_eq]
  rfl

end Canonical

namespace Registry

variable {r r' : Registry} {a : Handle} {id : ContentId} {out out' : Multiset Handle}
  {ds : List Deed} {handles : List Handle} {properties : Properties}

/-! ## Giving up registers nothing -/

theorem find?_of_letGo {serial : Serial} {other : ContentId}
    (h : (r.letGo serial other).1.find? id = some a) : r.find? id = some a := by
  cases hlast : (r.letGo serial other).2 with
  | false => rwa [find?_letGo_of_kept hlast] at h
  | true =>
      rw [letGo_eq_remove_of_last hlast, find?_remove] at h
      split at h
      · cases h
      · exact h

/-- What is registered after handles have been given up was so before. -/
theorem Course.find?_of_givesUp (hc : Course r out ds r' out') (hds : ∀ d ∈ ds, d.GivesUp)
    (h : r'.find? id = some a) : r.find? id = some a := by
  induction hc with
  | refl => exact h
  | @step r out d mid ds r' out' _ _ ih =>
      have hrest := ih (fun d hd => hds d (List.mem_cons_of_mem _ hd)) h
      cases d with
      | letGo b => exact find?_of_letGo hrest
      | _ => exact (hds _ List.mem_cons_self).elim

/-- Nothing that is registered has parts. -/
def Shallow (r : Registry) : Prop := ∀ id a, r.find? id = some a → a.IsLeaf

theorem Shallow.of_find? (h : r.Shallow)
    (hfind : ∀ id a, r'.find? id = some a → r.find? id = some a) : r'.Shallow :=
  fun id a ha => h id a (hfind id a ha)

theorem Shallow.of_find?_eq (h : r.Shallow) (hfind : r'.find? = r.find?) : r'.Shallow :=
  h.of_find? fun id a ha => by rwa [← hfind]

theorem Shallow.register (h : r.Shallow) (ha : a.IsLeaf) : (r.register a).Shallow := by
  intro id b hb
  rw [find?_register] at hb
  split at hb
  · obtain rfl := Option.some.inj hb
    exact ha
  · exact h id b hb

theorem shallow_start (maxDepth : ℕ) : (start maxDepth).Shallow := by
  have hempty : (empty maxDepth).Shallow := fun id a ha => by simp [find?, empty] at ha
  exact hempty.register (Canonical.isLeaf_ofParts 0 .plain)

theorem Shallow.releaseAll (h : r.Shallow) (hr : r.Balanced (handles + out)) :
    (r.releaseAll handles).Shallow :=
  h.of_find? fun _ _ =>
    (releaseAll_course r handles out hr).find?_of_givesUp (givesUp_releaseAllDeeds r handles)

theorem Shallow.release (h : r.Shallow) (hr : r.Balanced (a ::ₘ out)) : (r.release a).Shallow :=
  h.of_find? fun _ _ => (release_course r a out hr).find?_of_givesUp (givesUp_releaseDeeds r a)

/-! ## Interning -/

/-- If the instance is there, a handle to it is handed out. -/
theorem internTree_of_find? (ha : r.find? (WireState.ofProperties properties).contentId = some a) :
    r.internTree (.ofProperties properties) =
      ({ r.retain a with deduplicated := r.deduplicated + 1 }, a) := by
  have hcandidate : r.find? (Canonical.ofParts r.nextSerial properties [] []).id = some a := ha
  rw [Descriptor.ofProperties, internTree]
  simp only [internTrees, internParts, hcandidate]
  rfl

/-- If not, it is made and announced. -/
theorem internTree_of_new (hnew : r.find? (WireState.ofProperties properties).contentId = none) :
    r.internTree (.ofProperties properties) =
      (r.register (.ofParts r.nextSerial properties [] []),
        .ofParts r.nextSerial properties [] []) := by
  have hcandidate : r.find? (Canonical.ofParts r.nextSerial properties [] []).id = none := hnew
  rw [Descriptor.ofProperties, internTree]
  simp only [internTrees, internParts, hcandidate]

theorem intern_ofProperties (r : Registry) (properties : Properties) :
    r.intern (.ofProperties properties) =
      ((r.internTree (.ofProperties properties)).1,
        .ok (r.internTree (.ofProperties properties)).2) := by
  rw [intern, Descriptor.validate_of_le (Nat.zero_le _)]

theorem Shallow.internTree (h : r.Shallow) (properties : Properties) :
    (r.internTree (.ofProperties properties)).1.Shallow := by
  cases hfind : r.find? (WireState.ofProperties properties).contentId with
  | some a =>
      rw [internTree_of_find? hfind]
      exact h.of_find?_eq (funext (find?_retain r a))
  | none =>
      rw [internTree_of_new hfind]
      exact h.register (Canonical.isLeaf_ofParts r.nextSerial properties)

/-- A new appearance is announced.  Unless another of its name was registered, what is handed out
is the one that was asked for. -/
theorem Balanced.internTree_leaf (h : r.Balanced out) (properties : Properties) :
    let t := r.internTree (.ofProperties properties)
    t.2.id = (WireState.ofProperties properties).contentId ∧
    ((∀ a, r.find? t.2.id = some a → a.toState = .ofProperties properties) →
      t.2.toState = .ofProperties properties) ∧
    t.1.outbox.waiting.toList = r.outbox.waiting.toList ++
      if r.contains t.2.id then [] else [added (.ofProperties properties)] := by
  intro t
  have hid : t.2.id = (WireState.ofProperties properties).contentId :=
    id_internTree r (.ofProperties properties) out h
  refine ⟨hid, ?_⟩
  rw [hid, contains_eq_isSome_find?]
  cases hfind : r.find? (WireState.ofProperties properties).contentId with
  | some a =>
      have ht : t = _ := internTree_of_find? hfind
      rw [ht]
      exact ⟨fun hsame => hsame a rfl, (List.append_nil _).symm⟩
  | none =>
      have ht : t = _ := internTree_of_new hfind
      rw [ht]
      exact ⟨fun _ => rfl, waiting_announce h.isOpen _⟩

/-! ## Giving a handle up -/

theorem release_leaf (r : Registry) (ha : a.IsLeaf) : r.release a = (r.letGo a.key a.id).1 := by
  obtain ⟨serial, id, properties, overlays, underlays⟩ := a
  obtain rfl : overlays = [] := ha.overlays_eq
  obtain rfl : underlays = [] := ha.underlays_eq
  rw [release]
  simp only [releaseSlots, ite_self]
  rfl

/-- If it was the last, the removal is announced. -/
theorem Balanced.waiting_release_leaf (h : r.Balanced (a ::ₘ out)) (ha : a.IsLeaf) :
    (r.release a).outbox.waiting.toList = r.outbox.waiting.toList ++
      if (r.release a).contains a.id then [] else [removed a.id] := by
  rw [release_leaf r ha, contains_eq_isSome_find?]
  cases hlast : (r.letGo a.key a.id).2 with
  | false =>
      have hfound := h.find?_of_mem (Multiset.mem_cons_self a out)
      rw [outbox_letGo_of_kept hlast, find?_letGo_of_kept hlast, hfound]
      simp
  | true =>
      rw [letGo_eq_remove_of_last hlast, find?_remove, if_pos rfl]
      exact waiting_announce h.isOpen _

/-- The end of an animation that is held already is only announced. -/
theorem Balanced.exists_animate_leaf (h : r.Balanced (a ::ₘ out)) (target : Target)
    (hid : a.id = (WireState.ofProperties properties).contentId) (params : PlayParams) :
    ∃ r', r.animate target (.ofProperties properties) params = (r', .ok a) ∧
      (r'.release a).Balanced (a ::ₘ out) ∧ (r'.release a).find? = r.find? ∧
      (r'.release a).outbox.waiting.toList =
        r.outbox.waiting.toList ++ [.message (.animate ⟨target, a.id, params⟩)] := by
  have hfound := h.find?_of_mem (Multiset.mem_cons_self a out)
  rw [hid] at hfound
  let found : Registry := { r.retain a with deduplicated := r.deduplicated + 1 }
  let r' := found.publish (.animate ⟨target, a.id, params⟩)
  have hanimate : r.animate target (.ofProperties properties) params = (r', .ok a) := by
    rw [animate, intern_ofProperties, internTree_of_find? hfound]
  have hcourse := animate_course r target (.ofProperties properties) params _ h
  rw [hanimate] at hcourse
  have hr' : r'.Balanced (a ::ₘ a ::ₘ out) := hcourse.balanced h
  -- whoever held the instance before does so still
  have hkept : (r'.letGo a.key a.id).2 = false := by
    refine hr'.letGo_of_held (Multiset.mem_add.mpr (Or.inl ?_))
    rw [outside_cons]
    exact Multiset.mem_cons_self a _
  have hbalanced := (release_course r' a _ hr').balanced hr'
  refine ⟨r', hanimate, hbalanced, ?_, ?_⟩
  · rw [release_of_kept hkept, find?_letGo_of_kept hkept]
    exact funext fun id => (find?_announce found _ id).trans (find?_retain r a id)
  · rw [release_of_kept hkept, outbox_letGo_of_kept hkept]
    have hopen : found.outbox.isOpen = true := h.isOpen
    exact waiting_announce hopen _

/-! ## An animated exchange -/

/-- A handle is exchanged for one to an appearance with these properties, and the animation that
leads there is announced.  It is announced once, behind the addition of the new appearance, if it
was not registered, and behind the removal of the old one, if nobody holds it any more. -/
structure AnimatedExchange (r : Registry) (old : Handle) (properties : Properties)
    (target : Target) (params : PlayParams) (new : Handle) (r' : Registry) : Prop where
  id_eq : new.id = (WireState.ofProperties properties).contentId
  /-- Another appearance has these properties' name, or the new one has the properties. -/
  toState_eq : (∀ a, r.find? new.id = some a → a.toState = .ofProperties properties) →
    new.toState = .ofProperties properties
  waiting : r'.outbox.waiting.toList = r.outbox.waiting.toList ++
    ((if r.contains new.id then [] else [added (.ofProperties properties)]) ++
      (if r'.contains old.id then [] else [removed old.id]) ++
      [.message (.animate ⟨target, new.id, params⟩)])

theorem Balanced.exists_animatedExchange {old : Handle} (h : r.Balanced (old ::ₘ out))
    (hr : r.Shallow) (properties : Properties) (target : Target) (params : PlayParams) :
    let t := r.internTree (.ofProperties properties)
    ∃ r', (t.1.release old).animate target (.ofProperties properties) params = (r', .ok t.2) ∧
      r.AnimatedExchange old properties target params t.2 (r'.release t.2) ∧
      (r'.release t.2).Balanced (t.2 ::ₘ out) ∧ (r'.release t.2).Shallow := by
  intro t
  obtain ⟨hid, hstate, hadded⟩ := h.internTree_leaf properties
  have hold : old.IsLeaf := hr old.id old (h.find?_of_mem (Multiset.mem_cons_self old out))
  have ht : t.1.Balanced (old ::ₘ t.2 ::ₘ out) := by
    rw [Multiset.cons_swap]
    exact (internTree_course r (.ofProperties properties) _ h).balanced h
  have hremoved := ht.waiting_release_leaf hold
  have hexchanged := (release_course t.1 old _ ht).balanced ht
  have hshallow : (t.1.release old).Shallow := (hr.internTree properties).release ht
  obtain ⟨r', hanimate, hbalanced, hfind, hwaiting⟩ :=
    hexchanged.exists_animate_leaf target hid params
  refine ⟨r', hanimate, ⟨hid, hstate, ?_⟩, hbalanced, hshallow.of_find?_eq hfind⟩
  rw [hwaiting, hremoved, hadded, contains_eq_isSome_find? (r'.release t.2), hfind,
    ← contains_eq_isSome_find?]
  simp only [List.append_assoc]
  rfl

end Registry
end AppearanceSync
