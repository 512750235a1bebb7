import AppearanceSync.Proofs.Replica.Growth

/-!
# Replicas in the middle of a call

While a table is applied, instances have been stored of which the slots have not
been looked at yet, and ids are known for which callbacks still wait.  A replica
settles when everything else is as it should be.  Each step of a call takes an
instance or an id off these lists, or puts one on them.
-/

namespace AppearanceSync
namespace Replica

/-- The replica is as it should be, apart from instances whose slots are still to
be linked and ids whose callbacks are still to be run. -/
structure Settling (c : Replica) (unlinked : List Serial) (undrained : List ContentId) : Prop where
  shaped : c.arena.Shaped
  named : ∀ id n, c.find? id = some n → c.arena.id? n = some id
  filled : ∀ n k id m, c.arena.slotAt? n k = some (id, some m) → c.arena.id? m = some id
  awaited : ∀ id, (c.find? id).isSome → id ∉ undrained → c.waitingFor id = []
  empty : ∀ n k id, c.arena.slotAt? n k = some (id, none) → n ∉ unlinked →
    (c.find? id = none ∨ id ∈ undrained) ∧ (c.waitingFor id).count (.link n k) = 1
  aimed : ∀ id n k, .link n k ∈ c.waitingFor id →
    c.arena.slotAt? n k = some (id, none) ∧ n ∉ unlinked
  copied : ∀ (id : ContentId) (copy : SharedCopy), c.copies[id]? = some copy →
    ∃ n, c.find? id = some n ∧ c.arena.descriptor? n = some (.ok copy.descriptor)

variable {c c' : Replica} {id : ContentId} {n : Serial} {state : WireState}
  {unlinked : List Serial} {undrained : List ContentId}

/-! ## Storing -/

/-- A stored instance is still to be linked, and its id is still to be drained. -/
theorem Settling.keep (h : c.Settling unlinked undrained) (hname : state.contentId = id) :
    (c.keep id state).Settling (c.arena.next :: unlinked) (id :: undrained) := by
  have hslots := c.arena.slotAt?_push state
  constructor
  · exact h.shaped.push state
  · intro other n hfound
    rw [find?_keep] at hfound
    split at hfound
    · next heq =>
        obtain rfl := Option.some.inj hfound
        rw [heq, ← hname]
        exact c.arena.id?_push_next state
    · exact Arena.id?_push (h.named other n hfound) state
  · intro n k other m hslot
    have hslot := (hslots n k).symm.trans hslot
    split at hslot
    · obtain ⟨ref, -, href⟩ := Option.map_eq_some_iff.mp hslot
      simp at href
    · exact Arena.id?_push (h.filled n k other m hslot) state
  · intro other hknown hdrained
    obtain ⟨hne, hdrained⟩ := not_or.mp (List.mem_cons.not.mp hdrained)
    rw [find?_keep, if_neg hne] at hknown
    exact h.awaited other hknown hdrained
  · intro n k other hslot hlinked
    obtain ⟨hne, hlinked⟩ := not_or.mp (List.mem_cons.not.mp hlinked)
    have hslot := (hslots n k).symm.trans hslot
    rw [if_neg hne] at hslot
    obtain ⟨hreason, hcount⟩ := h.empty n k other hslot hlinked
    refine ⟨?_, hcount⟩
    by_cases heq : other = id
    · exact Or.inr (by simp [heq])
    · rw [find?_keep, if_neg heq]
      exact hreason.imp_right (List.mem_cons_of_mem id)
  · intro other n k hwaiting
    obtain ⟨hslot, hlinked⟩ := h.aimed other n k hwaiting
    have hne := Arena.ne_next_of_slotAt? hslot
    refine ⟨(hslots n k).trans ?_, ?_⟩
    · rwa [if_neg hne]
    · simp [hne, hlinked]
  · intro other copy hcopy
    simp only [Replica.keep, Std.TreeMap.getElem?_erase, Std.LawfulEqCmp.compare_eq_iff_eq] at hcopy
    split at hcopy
    · simp at hcopy
    · next hne =>
        obtain ⟨n, hfound, hn⟩ := h.copied other copy hcopy
        refine ⟨n, ?_, (c.arena.grows_push state).descriptor? h.shaped (h.shaped.push state) hn⟩
        rw [find?_keep, if_neg (Ne.symm hne), hfound]

/-! ## Linking -/

/-- The slots of an instance that is linked are filled, or wait for an unknown id. -/
theorem Settling.link (h : c.Settling (n :: unlinked) undrained) (hnew : n ∉ unlinked) :
    (c.link n).Settling unlinked undrained := by
  have hid (p : Serial) : (c.link n).arena.id? p = c.arena.id? p := by
    rw [Arena.id?, state?_link, Arena.id?]
  constructor
  · exact shaped_link h.shaped n
  · intro other p hfound
    rw [find?_link] at hfound
    rw [hid]
    exact h.named other p hfound
  · intro p k other m hslot
    rw [hid]
    by_cases hp : p = n
    · rw [hp, slotAt?_link] at hslot
      obtain ⟨⟨ref, target⟩, hold, heq⟩ := Option.map_eq_some_iff.mp hslot
      obtain ⟨rfl, htarget⟩ := Prod.mk.inj heq
      cases target with
      | none => exact h.named ref m (by simpa using htarget)
      | some m' =>
          obtain rfl : m' = m := by simpa using htarget
          exact h.filled n k ref m' hold
    · rw [slotAt?_link_of_ne c hp] at hslot
      exact h.filled p k other m hslot
  · intro other hknown hdrained
    rw [find?_link] at hknown
    rw [waitingFor_link_of_known hknown]
    exact h.awaited other hknown hdrained
  · intro p k other hslot hlinked
    rw [find?_link, count_waitingFor_link]
    by_cases hp : p = n
    · -- before it was linked, no slot of the instance waited
      subst hp
      have hnone : (c.waitingFor other).count (.link p k) = 0 := by
        rw [List.count_eq_zero]
        intro hwaiting
        exact (h.aimed other p k hwaiting).2 List.mem_cons_self
      rw [slotAt?_link] at hslot
      obtain ⟨⟨ref, target⟩, hold, heq⟩ := Option.map_eq_some_iff.mp hslot
      obtain ⟨rfl, htarget⟩ := Prod.mk.inj heq
      obtain ⟨rfl, hunknown⟩ := Option.or_eq_none_iff.mp htarget
      rw [hnone, if_pos ⟨rfl, hunknown, hold⟩]
      exact ⟨Or.inl hunknown, rfl⟩
    · rw [slotAt?_link_of_ne c hp] at hslot
      rw [if_neg fun hs => hp hs.1]
      exact h.empty p k other hslot (by simp [hp, hlinked])
  · intro other p k hwaiting
    rcases mem_waitingFor_link.mp hwaiting with hwaiting | ⟨hunknown, j, heq, hslot⟩
    · obtain ⟨hslot, hlinked⟩ := h.aimed other p k hwaiting
      obtain ⟨hp, hlinked⟩ := not_or.mp (List.mem_cons.not.mp hlinked)
      rw [slotAt?_link_of_ne c hp]
      exact ⟨hslot, hlinked⟩
    · obtain ⟨rfl, rfl⟩ := Callback.link.inj heq
      rw [slotAt?_link, hslot]
      exact ⟨by simp [hunknown], hnew⟩
  · intro other copy hcopy
    rw [copies_link] at hcopy
    obtain ⟨p, hfound, hp⟩ := h.copied other copy hcopy
    refine ⟨p, ?_, (c.grows_link n).descriptor? h.shaped (shaped_link h.shaped n) hp⟩
    rw [find?_link, hfound]

/-! ## Draining -/

/-- Once all that waits for an id has been run, nothing waits for it. -/
theorem Settling.drain (h : c.Settling unlinked (id :: undrained)) (hname : c.arena.id? n = some id) :
    (c.drain id n).Settling unlinked undrained := by
  have hid (p : Serial) : (c.drain id n).arena.id? p = c.arena.id? p := by
    rw [arena_drain, Arena.id?, Arena.state?_serveAll, Arena.id?]
  have hslots (p : Serial) (k : ℕ) : (c.drain id n).arena.slotAt? p k =
      (c.arena.slotAt? p k).map fun s =>
        if .link p k ∈ c.waitingFor id then (s.1, some (s.2.getD n)) else s := by
    rw [arena_drain, Arena.slotAt?_serveAll]
  -- what waits for one id is aimed at slots of that id
  have hother {p : Serial} {k : ℕ} {other : ContentId} {target : Option Serial}
      (hwaiting : .link p k ∈ c.waitingFor id)
      (hslot : c.arena.slotAt? p k = some (other, target)) : other = id := by
    have haimed := (h.aimed id p k hwaiting).1
    rw [hslot] at haimed
    exact (Prod.mk.inj (Option.some.inj haimed)).1
  have hshaped : (c.drain id n).arena.Shaped := by
    rw [arena_drain]
    exact h.shaped.serveAll n _
  constructor
  · exact hshaped
  · intro other p hfound
    rw [find?_drain] at hfound
    rw [hid]
    exact h.named other p hfound
  · intro p k other m hslot
    rw [hslots] at hslot
    obtain ⟨⟨ref, target⟩, hold, heq⟩ := Option.map_eq_some_iff.mp hslot
    rw [hid]
    split at heq
    · next hwaiting =>
        obtain ⟨rfl, htarget⟩ := Prod.mk.inj heq
        obtain rfl := hother hwaiting hold
        have hempty := (h.aimed ref p k hwaiting).1
        rw [hold] at hempty
        obtain rfl : target = none := (Prod.mk.inj (Option.some.inj hempty)).2
        obtain rfl : n = m := by simpa using htarget
        exact hname
    · rw [heq] at hold
      exact h.filled p k other m hold
  · intro other hknown hdrained
    rw [find?_drain] at hknown
    rw [waitingFor_drain]
    split
    · rfl
    · next hne => exact h.awaited other hknown (by simp [hne, hdrained])
  · intro p k other hslot hlinked
    rw [hslots] at hslot
    obtain ⟨s, hold, heq⟩ := Option.map_eq_some_iff.mp hslot
    split at heq
    · simp at heq
    · next hwaiting =>
        subst heq
        obtain ⟨hreason, hcount⟩ := h.empty p k other hold hlinked
        have hne : other ≠ id := by
          rintro rfl
          exact hwaiting (List.count_pos_iff.mp (by omega))
        rw [find?_drain, waitingFor_drain, if_neg hne]
        refine ⟨hreason.imp_right fun hmem => ?_, hcount⟩
        exact (List.mem_cons.mp hmem).resolve_left hne
  · intro other p k hwaiting
    rw [waitingFor_drain] at hwaiting
    split at hwaiting
    · exact absurd hwaiting List.not_mem_nil
    · next hne =>
        obtain ⟨hslot, hlinked⟩ := h.aimed other p k hwaiting
        have hnot : .link p k ∉ c.waitingFor id := fun hw => hne (hother hw hslot)
        rw [hslots, hslot, Option.map_some, if_neg hnot]
        exact ⟨rfl, hlinked⟩
  · intro other copy hcopy
    rw [copies_drain] at hcopy
    obtain ⟨p, hfound, hp⟩ := h.copied other copy hcopy
    refine ⟨p, ?_, (c.grows_drain id n).descriptor? h.shaped hshaped hp⟩
    rw [find?_drain, hfound]

/-! ## Forgetting -/

theorem find?_remove (c : Replica) (id other : ContentId) :
    (c.remove id).find? other = if other = id then none else c.find? other := by
  simp only [Replica.remove, find?, Std.TreeMap.getElem?_erase, Std.LawfulEqCmp.compare_eq_iff_eq,
    eq_comm (a := id)]

theorem Settling.remove (h : c.Settling unlinked undrained) (id : ContentId) :
    (c.remove id).Settling unlinked undrained := by
  have hfind := find?_remove c id
  constructor
  · exact h.shaped
  · intro other n hfound
    rw [hfind] at hfound
    split at hfound
    · simp at hfound
    · exact h.named other n hfound
  · exact h.filled
  · intro other hknown hdrained
    rw [hfind] at hknown
    split at hknown
    · simp at hknown
    · exact h.awaited other hknown hdrained
  · intro n k other hslot hlinked
    obtain ⟨hreason, hcount⟩ := h.empty n k other hslot hlinked
    refine ⟨hreason.imp_left fun hunknown => ?_, hcount⟩
    rw [hfind, hunknown, ite_self]
  · exact h.aimed
  · intro other copy hcopy
    simp only [Replica.remove, Std.TreeMap.getElem?_erase, Std.LawfulEqCmp.compare_eq_iff_eq]
      at hcopy
    split at hcopy
    · simp at hcopy
    · next hne =>
        rw [hfind, if_neg (Ne.symm hne)]
        exact h.copied other copy hcopy

/-- The replica after everything that was known has been forgotten. -/
def forgetAll (c : Replica) : Replica := { c with known := ∅, copies := ∅ }

theorem find?_forgetAll (c : Replica) (id : ContentId) : c.forgetAll.find? id = none := by
  simp [forgetAll, find?]

theorem Settling.forgetAll (h : c.Settling unlinked undrained) :
    c.forgetAll.Settling unlinked undrained := by
  constructor
  · exact h.shaped
  · intro id n hfound
    simp [find?_forgetAll] at hfound
  · exact h.filled
  · intro id hknown
    simp [find?_forgetAll] at hknown
  · intro n k id hslot hlinked
    exact ⟨Or.inl (c.find?_forgetAll id), (h.empty n k id hslot hlinked).2⟩
  · exact h.aimed
  · intro id copy hcopy
    simp [Replica.forgetAll] at hcopy

/-! ## Requests -/

/-- What does not change the arena, what is known or which slots wait keeps a replica settled. -/
theorem Settling.of_waiting (h : c.Settling unlinked undrained) (harena : c'.arena = c.arena)
    (hknown : c'.known = c.known) (hcopies : c'.copies = c.copies)
    (hwaiting : ∀ other, ∃ more, c'.waitingFor other = c.waitingFor other ++ more ∧
      (∀ p k, .link p k ∉ more) ∧ ((c.find? other).isSome → more = [])) :
    c'.Settling unlinked undrained := by
  have hfind (other : ContentId) : c'.find? other = c.find? other := by
    rw [find?, hknown, find?]
  constructor
  · rw [harena]
    exact h.shaped
  · intro other p hfound
    rw [hfind] at hfound
    rw [harena]
    exact h.named other p hfound
  · rw [harena]
    exact h.filled
  · intro other hother hdrained
    rw [hfind] at hother
    obtain ⟨more, hmore, -, hnone⟩ := hwaiting other
    rw [hmore, hnone hother, h.awaited other hother hdrained, List.append_nil]
  · intro p k other hslot hlinked
    rw [harena] at hslot
    obtain ⟨more, hmore, hlink, -⟩ := hwaiting other
    obtain ⟨hreason, hcount⟩ := h.empty p k other hslot hlinked
    rw [hfind, hmore, List.count_append, List.count_eq_zero.mpr (hlink p k)]
    exact ⟨hreason, hcount⟩
  · intro other p k hlink
    obtain ⟨more, hmore, hnone, -⟩ := hwaiting other
    rw [hmore, List.mem_append] at hlink
    rw [harena]
    exact h.aimed other p k (hlink.resolve_right (hnone p k))
  · intro other copy hcopy
    rw [hcopies] at hcopy
    rw [hfind, harena]
    exact h.copied other copy hcopy

end Replica
end AppearanceSync
