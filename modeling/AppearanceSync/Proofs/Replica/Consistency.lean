import AppearanceSync.Proofs.Replica.Settling

/-!
# Replicas between calls

Whatever a replica is told, by whomever and in whatever order, it is consistent
between calls: what is known is named by its content, nothing waits for what is
known, every empty slot waits once for what belongs there, every filled slot has
what belongs there, and shared copies are up to date.
-/

namespace AppearanceSync
namespace Replica

/-- The replica is as it should be between calls. -/
structure Consistent (c : Replica) : Prop where
  /-- Every instance has one slot for each reference of its state. -/
  shaped : ∀ n i, c.arena.get? n = some i → i.slots.map Prod.fst = i.state.references
  /-- What is known under an id has a state that hashes to the id. -/
  named : ∀ id n, c.find? id = some n →
    ∃ state, c.arena.state? n = some state ∧ state.contentId = id
  /-- Nothing waits for a known id. -/
  awaited : ∀ id, (c.find? id).isSome → c.waitingFor id = []
  /-- An empty slot of any instance is for an unknown id, and waits for it once. -/
  empty : ∀ n k id, c.arena.slotAt? n k = some (id, none) →
    c.find? id = none ∧ (c.waitingFor id).count (.link n k) = 1
  /-- What waits to fill a slot waits for the slot's own id, and the slot is empty. -/
  aimed : ∀ id n k, .link n k ∈ c.waitingFor id → c.arena.slotAt? n k = some (id, none)
  /-- A filled slot of any instance has an instance of the slot's id. -/
  filled : ∀ n k id m, c.arena.slotAt? n k = some (id, some m) →
    ∃ state, c.arena.state? m = some state ∧ state.contentId = id
  /-- A shared copy is a copy of what is known under its id. -/
  copied : ∀ (id : ContentId) (copy : SharedCopy), c.copies[id]? = some copy →
    ∃ n, c.find? id = some n ∧ c.arena.descriptor? n = some (.ok copy.descriptor)

/-- What the user of a replica asks of it. -/
inductive Request
  | load (id : ContentId) (tag : String)
  | bind (entity : EntityId) (id : ContentId)
  | turfIcon (turf : TurfId)
  | sharedCopy (id : ContentId)

/-- A call of a replica. -/
inductive Call
  | insert (id : ContentId) (state : WireState)
  /-- A table whose entries are taken in this order. -/
  | table (entries : List (ContentId × WireState))
  | remove (id : ContentId)
  | message (m : Message)
  | request (q : Request)

/-- The replica after a request. -/
def ask (c : Replica) : Request → Replica
  | .load id tag => c.load id (.notify tag)
  | .bind entity id => c.bind entity id
  | .turfIcon turf => (c.turfIcon turf).1
  | .sharedCopy id => (c.sharedCopy id).1

/-- The replica after a call. -/
def call (c : Replica) : Call → Replica
  | .insert id state => c.insert id state
  | .table entries => c.applyEntries entries
  | .remove id => c.remove id
  | .message m => c.apply m
  | .request q => c.ask q

variable {c c' : Replica} {id : ContentId} {n : Serial} {state : WireState}
  {unlinked unlinked' : List Serial} {undrained undrained' : List ContentId}
  {stored : List (ContentId × Serial)}

theorem consistent_iff_settling : c.Consistent ↔ c.Settling [] [] := by
  have hname (n : Serial) (id : ContentId) :
      (∃ state, c.arena.state? n = some state ∧ state.contentId = id) ↔
        c.arena.id? n = some id := Option.map_eq_some_iff.symm
  constructor
  · intro h
    refine ⟨h.shaped, ?_, ?_, ?_, ?_, ?_, h.copied⟩
    · exact fun id n hfound => (hname n id).mp (h.named id n hfound)
    · exact fun n k id m hslot => (hname m id).mp (h.filled n k id m hslot)
    · exact fun id hknown _ => h.awaited id hknown
    · exact fun n k id hslot _ => (h.empty n k id hslot).imp_left Or.inl
    · exact fun id n k hlink => ⟨h.aimed id n k hlink, List.not_mem_nil⟩
  · intro h
    refine ⟨h.shaped, ?_, ?_, ?_, ?_, ?_, h.copied⟩
    · exact fun id n hfound => (hname n id).mpr (h.named id n hfound)
    · exact fun id hknown => h.awaited id hknown List.not_mem_nil
    · intro n k id hslot
      exact (h.empty n k id hslot List.not_mem_nil).imp_left
        fun hreason => hreason.resolve_right List.not_mem_nil
    · exact fun id n k hlink => (h.aimed id n k hlink).1
    · exact fun n k id m hslot => (hname m id).mpr (h.filled n k id m hslot)

theorem Settling.congr (h : c.Settling unlinked undrained)
    (hunlinked : ∀ n, n ∈ unlinked' ↔ n ∈ unlinked)
    (hundrained : ∀ id, id ∈ undrained' ↔ id ∈ undrained) : c.Settling unlinked' undrained' := by
  refine ⟨h.shaped, h.named, h.filled, ?_, ?_, ?_, h.copied⟩
  · intro id hknown hdrained
    exact h.awaited id hknown (by rwa [hundrained] at hdrained)
  · intro n k id hslot hlinked
    rw [hunlinked] at hlinked
    rw [hundrained]
    exact h.empty n k id hslot hlinked
  · intro id n k hlink
    rw [hunlinked]
    exact h.aimed id n k hlink

/-! ## Insertion -/

theorem insert_of_named (hname : state.contentId = id) :
    c.insert id state = ((c.keep id state).link c.arena.next).drain id c.arena.next := by
  rw [insert, store_of_named hname]

theorem insert_of_misnamed (hname : state.contentId ≠ id) : c.insert id state = c := by
  rw [insert, store_of_misnamed hname]

theorem id?_link (c : Replica) (n m : Serial) : (c.link n).arena.id? m = c.arena.id? m := by
  rw [Arena.id?, state?_link, Arena.id?]

theorem Settling.insert (h : c.Settling [] []) (id : ContentId) (state : WireState) :
    (c.insert id state).Settling [] [] := by
  by_cases hname : state.contentId = id
  · rw [insert_of_named hname]
    refine ((h.keep hname).link List.not_mem_nil).drain ?_
    rw [id?_link, ← hname]
    exact c.arena.id?_push_next state
  · rwa [insert_of_misnamed hname]

/-! ## Tables -/

/-- These instances have been stored, each under its own id, and none of them was
there before. -/
structure Stored (c c' : Replica) (stored : List (ContentId × Serial)) : Prop where
  grows : c.arena.Grows c'.arena
  named : ∀ s ∈ stored, c'.arena.id? s.2 = some s.1
  fresh : ∀ s ∈ stored, c.arena.next ≤ s.2
  nodup : (stored.map Prod.snd).Nodup

theorem storeAll_cons_of_named (hname : state.contentId = id)
    (entries : List (ContentId × WireState)) :
    c.storeAll ((id, state) :: entries) =
      (((c.keep id state).storeAll entries).1,
        (id, c.arena.next) :: ((c.keep id state).storeAll entries).2) := by
  rw [storeAll, store_of_named hname]
  rfl

theorem storeAll_cons_of_misnamed (hname : state.contentId ≠ id)
    (entries : List (ContentId × WireState)) :
    c.storeAll ((id, state) :: entries) = c.storeAll entries := by
  rw [storeAll, store_of_misnamed hname]
  rfl

/-- Storing leaves alone what waits and what is kept to be taken. -/
theorem storeAll_eq (c : Replica) (entries : List (ContentId × WireState)) :
    ∃ arena known copies, (c.storeAll entries).1 = { c with arena, known, copies } := by
  induction entries generalizing c with
  | nil => exact ⟨_, _, _, rfl⟩
  | cons entry entries ih =>
      obtain ⟨id, state⟩ := entry
      by_cases hname : state.contentId = id
      · rw [storeAll_cons_of_named hname]
        exact ih (c.keep id state)
      · rw [storeAll_cons_of_misnamed hname]
        exact ih c

theorem stored_storeAll (c : Replica) (entries : List (ContentId × WireState)) :
    Stored c (c.storeAll entries).1 (c.storeAll entries).2 := by
  induction entries generalizing c with
  | nil => exact ⟨.refl _, by simp [storeAll], by simp [storeAll], List.nodup_nil⟩
  | cons entry entries ih =>
      obtain ⟨id, state⟩ := entry
      by_cases hname : state.contentId = id
      · have hrest := ih (c.keep id state)
        have hkeep := c.arena.grows_push state
        have hnext : (c.keep id state).arena.next = c.arena.next + 1 := Array.size_push _
        rw [storeAll_cons_of_named hname]
        constructor
        · exact hkeep.trans hrest.grows
        · intro s hs
          rcases List.mem_cons.mp hs with rfl | hs
          · obtain ⟨old, hold, heq⟩ := Option.map_eq_some_iff.mp (c.arena.id?_push_next state)
            rw [Arena.id?, hrest.grows.state _ old hold, ← hname, ← heq]
            rfl
          · exact hrest.named s hs
        · intro s hs
          rcases List.mem_cons.mp hs with rfl | hs
          · exact Nat.le_refl _
          · exact Nat.le_trans hkeep.next (hrest.fresh s hs)
        · refine List.nodup_cons.mpr ⟨?_, hrest.nodup⟩
          intro hmem
          obtain ⟨s, hs, heq⟩ := List.mem_map.mp hmem
          have hle := hrest.fresh s hs
          rw [hnext, heq] at hle
          exact Nat.not_succ_le_self _ hle
      · rw [storeAll_cons_of_misnamed hname]
        exact ih c

theorem Settling.storeAll (h : c.Settling unlinked undrained)
    (entries : List (ContentId × WireState)) :
    (c.storeAll entries).1.Settling ((c.storeAll entries).2.map Prod.snd ++ unlinked)
      ((c.storeAll entries).2.map Prod.fst ++ undrained) := by
  induction entries generalizing c unlinked undrained with
  | nil => exact h
  | cons entry entries ih =>
      obtain ⟨id, state⟩ := entry
      by_cases hname : state.contentId = id
      · rw [storeAll_cons_of_named hname]
        refine (ih (h.keep hname)).congr ?_ ?_
        · intro n
          simp only [List.map_cons, List.cons_append, List.mem_cons, List.mem_append]
          tauto
        · intro other
          simp only [List.map_cons, List.cons_append, List.mem_cons, List.mem_append]
          tauto
      · rw [storeAll_cons_of_misnamed hname]
        exact ih h

/-- The replica after the slots of these instances have been linked. -/
def linkEach (c : Replica) (stored : List (ContentId × Serial)) : Replica :=
  stored.foldl (fun c s => c.link s.2) c

/-- The replica after what waits for these ids has been run. -/
def drainEach (c : Replica) (stored : List (ContentId × Serial)) : Replica :=
  stored.foldl (fun c s => c.drain s.1 s.2) c

theorem applyEntries_eq (c : Replica) (entries : List (ContentId × WireState)) :
    c.applyEntries entries =
      ((c.forgetAll.storeAll entries).1.linkEach (c.forgetAll.storeAll entries).2).drainEach
        (c.forgetAll.storeAll entries).2 := rfl

theorem Settling.linkEach (h : c.Settling (stored.map Prod.snd) undrained)
    (hnodup : (stored.map Prod.snd).Nodup) : (c.linkEach stored).Settling [] undrained := by
  induction stored generalizing c with
  | nil => exact h
  | cons s stored ih =>
      obtain ⟨hnew, hrest⟩ := List.nodup_cons.mp hnodup
      exact ih (h.link hnew) hrest

theorem id?_linkEach (c : Replica) (stored : List (ContentId × Serial)) (n : Serial) :
    (c.linkEach stored).arena.id? n = c.arena.id? n := by
  induction stored generalizing c with
  | nil => rfl
  | cons s stored ih => exact (ih (c.link s.2)).trans (id?_link c s.2 n)

theorem id?_drain (c : Replica) (id : ContentId) (n m : Serial) :
    (c.drain id n).arena.id? m = c.arena.id? m := by
  rw [arena_drain, Arena.id?, Arena.state?_serveAll, Arena.id?]

theorem Settling.drainEach (h : c.Settling [] (stored.map Prod.fst))
    (hnamed : ∀ s ∈ stored, c.arena.id? s.2 = some s.1) : (c.drainEach stored).Settling [] [] := by
  induction stored generalizing c with
  | nil => exact h
  | cons s stored ih =>
      refine ih (h.drain (hnamed s (by simp))) ?_
      intro t ht
      rw [id?_drain]
      exact hnamed t (by simp [ht])

theorem Settling.applyEntries (h : c.Settling [] []) (entries : List (ContentId × WireState)) :
    (c.applyEntries entries).Settling [] [] := by
  have hstored := stored_storeAll c.forgetAll entries
  have hsettling := h.forgetAll.storeAll entries
  rw [List.append_nil, List.append_nil] at hsettling
  rw [applyEntries_eq]
  refine (hsettling.linkEach hstored.nodup).drainEach ?_
  intro s hs
  rw [id?_linkEach]
  exact hstored.named s hs

/-! ## Requests -/

theorem Settling.wait (h : c.Settling unlinked undrained) (hunknown : c.find? id = none)
    {callback : Callback} (hlink : ∀ p k, callback ≠ .link p k) :
    (c.wait id callback).Settling unlinked undrained := by
  refine h.of_waiting rfl rfl rfl fun other => ⟨_, waitingFor_wait c id callback other, ?_, ?_⟩
  · intro p k hmem
    split at hmem
    · exact hlink p k (List.mem_singleton.mp hmem).symm
    · exact absurd hmem List.not_mem_nil
  · intro hknown
    rw [if_neg]
    rintro rfl
    simp [hunknown] at hknown

theorem Settling.of_eq (h : c.Settling unlinked undrained) (harena : c'.arena = c.arena)
    (hknown : c'.known = c.known) (hcopies : c'.copies = c.copies)
    (hwaiting : c'.waiting = c.waiting) : c'.Settling unlinked undrained := by
  refine h.of_waiting harena hknown hcopies fun other => ⟨[], ?_, by simp, fun _ => rfl⟩
  rw [waitingFor, hwaiting, List.append_nil, waitingFor]

theorem Settling.load (h : c.Settling unlinked undrained) (id : ContentId) {callback : Callback}
    (hlink : ∀ p k, callback ≠ .link p k) : (c.load id callback).Settling unlinked undrained := by
  cases hfound : c.find? id with
  | none =>
      rw [load_of_unknown hfound]
      exact h.wait hfound hlink
  | some n =>
      obtain ⟨updates, notices, heq⟩ := run_eq c n callback
      have harena : c.arena.serve n callback = c.arena := by
        cases callback with
        | link p k => exact absurd rfl (hlink p k)
        | notify tag => rfl
        | update target change => rfl
      rw [load_of_find? hfound, heq]
      exact h.of_eq harena rfl rfl rfl

theorem Settling.turfIcon (h : c.Settling unlinked undrained) (turf : TurfId) :
    (c.turfIcon turf).1.Settling unlinked undrained := by
  rw [Replica.turfIcon]
  split
  · exact h
  · rw [makeTurf]
    split
    · exact h.of_eq rfl rfl rfl rfl
    · next hunknown =>
        have hwait : (c.wait turf.content (.update (.turf turf) .show)).Settling
            unlinked undrained := h.wait hunknown (by simp)
        exact hwait.of_eq rfl rfl rfl rfl

theorem Settling.sharedCopy (h : c.Settling unlinked undrained) (id : ContentId) :
    (c.sharedCopy id).1.Settling unlinked undrained := by
  rw [Replica.sharedCopy]
  split
  · exact h
  · split
    · next descriptor hcopy =>
        obtain ⟨n, hfound, hn⟩ := Option.bind_eq_some_iff.mp hcopy
        refine ⟨h.shaped, h.named, h.filled, h.awaited, h.empty, h.aimed, ?_⟩
        intro other copy hother
        simp only [Std.TreeMap.getElem?_insert, Std.LawfulEqCmp.compare_eq_iff_eq] at hother
        split at hother
        · next heq =>
            subst heq
            obtain rfl := Option.some.inj hother
            exact ⟨n, hfound, hn⟩
        · exact h.copied other copy hother
    · exact h

theorem Settling.ask (h : c.Settling unlinked undrained) (q : Request) :
    (c.ask q).Settling unlinked undrained := by
  cases q with
  | load id tag => exact h.load id (by simp)
  | bind entity id => exact h.load id (by simp)
  | turfIcon turf => exact h.turfIcon turf
  | sharedCopy id => exact h.sharedCopy id

/-! ## Every call -/

theorem Settling.apply (h : c.Settling [] []) (m : Message) : (c.apply m).Settling [] [] := by
  cases m with
  | snapshot table => exact h.applyEntries table.entries
  | added e => exact h.insert e.id e.appearance
  | removed e => exact h.remove e.id
  | animate e => exact h.load e.appearance (by simp)

theorem Settling.call (h : c.Settling [] []) (call : Call) : (c.call call).Settling [] [] := by
  cases call with
  | insert id state => exact h.insert id state
  | table entries => exact h.applyEntries entries
  | remove id => exact h.remove id
  | message m => exact h.apply m
  | request q => exact h.ask q

theorem settling_empty (tileSize : ℕ) : (empty tileSize).Settling [] [] := by
  constructor
  · intro n i hi
    simp [empty, Arena.empty, Arena.get?] at hi
  · intro id n hfound
    simp [empty, find?] at hfound
  · intro n k id m hslot
    simp [empty, Arena.empty, Arena.slotAt?, Arena.get?] at hslot
  · intro id hknown
    simp [empty, find?] at hknown
  · intro n k id hslot
    simp [empty, Arena.empty, Arena.slotAt?, Arena.get?] at hslot
  · intro id n k hlink
    simp [empty, waitingFor] at hlink
  · intro id copy hcopy
    simp [empty] at hcopy

/-- Any sequence of calls leaves a replica consistent that was empty before. -/
theorem consistent_of_calls (tileSize : ℕ) (calls : List Call) :
    (calls.foldl call (empty tileSize)).Consistent := by
  have key (c : Replica) (h : c.Settling [] []) : (calls.foldl call c).Settling [] [] := by
    induction calls generalizing c with
    | nil => exact h
    | cons call calls ih => exact ih (c.call call) (h.call call)
  exact consistent_iff_settling.mpr (key _ (settling_empty tileSize))

end Replica
end AppearanceSync
