import AppearanceSync.Proofs.Entrywise
import AppearanceSync.Proofs.Replica.Effects

/-!
# Arenas only grow

No step of a replica takes an instance out of the arena or changes a slot that is
filled.  An editable copy of an instance whose slots are all filled, at every
level, is therefore the same at any later time.
-/

namespace AppearanceSync

namespace Arena

variable {a b d : Arena} {n m : Serial} {k l l' : ℕ} {i : Instance}

/-- The second arena has every instance and every filled slot of the first. -/
structure Grows (a b : Arena) : Prop where
  next : a.next ≤ b.next
  state : ∀ n state, a.state? n = some state → b.state? n = some state
  slot : ∀ n k id m, a.slotAt? n k = some (id, some m) → b.slotAt? n k = some (id, some m)

theorem Grows.refl (a : Arena) : a.Grows a :=
  ⟨Nat.le_refl _, fun _ _ h => h, fun _ _ _ _ h => h⟩

theorem Grows.trans (h : a.Grows b) (h' : b.Grows d) : a.Grows d :=
  ⟨Nat.le_trans h.next h'.next, fun n s hs => h'.state n s (h.state n s hs),
    fun n k id m hs => h'.slot n k id m (h.slot n k id m hs)⟩

theorem grows_push (a : Arena) (state : WireState) : a.Grows (a.push (.ofState state)) := by
  refine ⟨?_, ?_, ?_⟩
  · simp [next, push]
  · intro n s hs
    rw [state?_push, if_neg]
    · exact hs
    · rintro rfl
      simp [state?, get?_next] at hs
  · intro n k id m hs
    rw [slotAt?_push, if_neg (ne_next_of_slotAt? hs)]
    exact hs

theorem grows_fill (a : Arena) (p : Serial) (k : ℕ) (m : Serial) : a.Grows (a.fill p k m) := by
  refine ⟨?_, ?_, ?_⟩
  · simp [next, fill]
  · intro n s hs
    rwa [state?_fill]
  · intro n j id t hs
    rw [slotAt?_fill]
    split
    · rw [hs]
      rfl
    · exact hs

theorem grows_serveAll (a : Arena) (n : Serial) (callbacks : List Callback) :
    a.Grows (callbacks.foldl (fun a c => a.serve n c) a) := by
  induction callbacks generalizing a with
  | nil => exact .refl a
  | cons callback callbacks ih =>
      refine Grows.trans ?_ (ih (a.serve n callback))
      cases callback with
      | link parent slot => exact a.grows_fill parent slot n
      | notify tag => exact .refl a
      | update target change => exact .refl a

/-! ## Copies of complete instances -/

theorem slotCopy_eq_ok {copy : Serial → Option (Except AppearanceError Descriptor)}
    {s : ContentId × Option Serial} {x : Descriptor} (h : slotCopy copy s = .ok x) :
    ∃ m, s.2 = some m ∧ copy m = some (.ok x) := by
  obtain ⟨id, target⟩ := s
  cases target with
  | none => cases h
  | some m =>
      cases hm : copy m with
      | none =>
          simp only [slotCopy, Option.bind_some, hm] at h
          cases h
      | some result =>
          simp only [slotCopy, Option.bind_some, hm] at h
          obtain rfl : result = .ok x := h
          exact ⟨m, rfl, hm⟩

/-- A copy is complete exactly if the copies of all slots are. -/
theorem descriptorWithin_succ_eq_ok {x : Descriptor} :
    a.descriptorWithin (l + 1) n = some (.ok x) ↔
      ∃ i, a.get? n = some i ∧ x.properties = i.state.properties ∧
        i.overlaySlots.mapM (slotCopy (a.descriptorWithin l)) = .ok x.overlays ∧
        i.underlaySlots.mapM (slotCopy (a.descriptorWithin l)) = .ok x.underlays := by
  rw [descriptorWithin, Option.map_eq_some_iff]
  refine exists_congr fun i => and_congr_right fun _ => ?_
  cases hover : i.overlaySlots.mapM (slotCopy (a.descriptorWithin l)) with
  | error e =>
      constructor
      · intro h
        cases h
      · rintro ⟨-, h, -⟩
        cases h
  | ok xs =>
      cases hunder : i.underlaySlots.mapM (slotCopy (a.descriptorWithin l)) with
      | error e =>
          constructor
          · intro h
            cases h
          · rintro ⟨-, -, h⟩
            cases h
      | ok ys =>
          constructor
          · intro h
            obtain rfl := Except.ok.inj h
            exact ⟨rfl, rfl, rfl⟩
          · rintro ⟨hproperties, hx, hx'⟩
            obtain ⟨properties, xs, ys⟩ := x
            obtain rfl := Except.ok.inj hx
            obtain rfl := Except.ok.inj hx'
            simp only at hproperties
            rw [hproperties]
            rfl

/-- An instance whose slots are all filled is the same in an arena that has grown. -/
theorem Grows.slots_eq {j : Instance} (h : a.Grows b) (ha : a.Shaped) (hb : b.Shaped)
    (hi : a.get? n = some i) (hj : b.get? n = some j)
    (hfull : ∀ s ∈ i.slots, s.2.isSome) : j.state = i.state ∧ j.slots = i.slots := by
  have hstate : j.state = i.state := by
    have hs := h.state n i.state (by rw [state?, hi]; rfl)
    rw [state?, hj] at hs
    exact Option.some.inj hs
  refine ⟨hstate, ?_⟩
  have hlength : j.slots.length = i.slots.length := by
    rw [← List.length_map (f := Prod.fst), hb n j hj, hstate, ← ha n i hi, List.length_map]
  apply List.ext_getElem? fun k => ?_
  cases hk : i.slots[k]? with
  | none => rw [List.getElem?_eq_none_iff] at hk ⊢; omega
  | some s =>
      obtain ⟨id, target⟩ := s
      obtain ⟨m, hm⟩ := Option.isSome_iff_exists.mp (hfull _ (List.mem_of_getElem? hk))
      obtain rfl : target = some m := hm
      have hs := h.slot n k id m (by rw [slotAt?, hi]; exact hk)
      rw [slotAt?, hj] at hs
      exact hs

/-- What was copied once is copied again from a larger arena. -/
theorem Grows.descriptorWithin (h : a.Grows b) (ha : a.Shaped) (hb : b.Shaped) (hl : l ≤ l')
    {x : Descriptor} (hx : a.descriptorWithin l n = some (.ok x)) :
    b.descriptorWithin l' n = some (.ok x) := by
  induction l generalizing l' n x with
  | zero => cases hx
  | succ l ih =>
      obtain ⟨l', rfl⟩ : ∃ m, l' = m + 1 := Nat.exists_eq_succ_of_ne_zero (by omega)
      have hle : l ≤ l' := Nat.le_of_succ_le_succ hl
      obtain ⟨i, hi, hproperties, hover, hunder⟩ := descriptorWithin_succ_eq_ok.mp hx
      rw [mapM_eq_ok_iff] at hover hunder
      have hcopy (s : ContentId × Option Serial) (y : Descriptor)
          (hs : slotCopy (a.descriptorWithin l) s = .ok y) :
          slotCopy (b.descriptorWithin l') s = .ok y := by
        obtain ⟨m, hm, hy⟩ := slotCopy_eq_ok hs
        have hgrown := ih hle hy
        rw [slotCopy, hm, Option.bind_some, hgrown]
        rfl
      have hfull : ∀ s ∈ i.slots, s.2.isSome := by
        intro s hs
        rw [← i.overlaySlots_append_underlaySlots, List.mem_append] at hs
        have hok : ∃ y, slotCopy (a.descriptorWithin l) s = .ok y := by
          rcases hs with hs | hs
          · obtain ⟨y, hy⟩ := exists_of_mem_forall₂ hover hs
            exact ⟨y, hy⟩
          · obtain ⟨y, hy⟩ := exists_of_mem_forall₂ hunder hs
            exact ⟨y, hy⟩
        obtain ⟨y, hy⟩ := hok
        obtain ⟨m, hm, -⟩ := slotCopy_eq_ok hy
        rw [hm]
        rfl
      have hstate := h.state n i.state (by rw [state?, hi]; rfl)
      obtain ⟨j, hj, -⟩ := Option.map_eq_some_iff.mp hstate
      obtain ⟨hstate, hslots⟩ := h.slots_eq ha hb hi hj hfull
      refine descriptorWithin_succ_eq_ok.mpr ⟨j, hj, ?_, ?_, ?_⟩
      · rw [hproperties, hstate]
      · rw [mapM_eq_ok_iff, Instance.overlaySlots, hslots, hstate]
        exact hover.imp hcopy
      · rw [mapM_eq_ok_iff, Instance.underlaySlots, hslots, hstate]
        exact hunder.imp hcopy

theorem Grows.descriptor? (h : a.Grows b) (ha : a.Shaped) (hb : b.Shaped) {x : Descriptor}
    (hx : a.descriptor? n = some (.ok x)) : b.descriptor? n = some (.ok x) :=
  h.descriptorWithin ha hb h.next hx

end Arena

namespace Replica

variable {c : Replica}

theorem grows_link (c : Replica) (n : Serial) : c.arena.Grows (c.link n).arena := by
  rw [link_eq]
  exact linkAll_induction (motive := fun d => c.arena.Grows d.arena) (.refl _)
    (fun d m slot h => h.trans (d.arena.grows_fill n slot m)) fun _ _ _ h => h

theorem grows_drain (c : Replica) (id : ContentId) (n : Serial) :
    c.arena.Grows (c.drain id n).arena := by
  rw [arena_drain]
  exact c.arena.grows_serveAll n _

end Replica
end AppearanceSync
