import AppearanceSync.Proofs.Replica.Slots
import AppearanceSync.Replica.Icons

/-!
# What the steps of a replica change

Storing an appearance, filling its slots and running what waits for it are the
steps by which a replica changes.  For each of them this module says what it does
to the slots in the arena and to the lists of callbacks that wait.
-/

namespace AppearanceSync

namespace Arena

variable {a : Arena} {n p : Serial} {j : ℕ}

/-- The arena after a callback has been run with an instance. -/
def serve (a : Arena) (n : Serial) : Callback → Arena
  | .link parent slot => a.fill parent slot n
  | .notify _ | .update _ _ => a

theorem state?_serveAll (a : Arena) (n p : Serial) (callbacks : List Callback) :
    (callbacks.foldl (fun a c => a.serve n c) a).state? p = a.state? p := by
  induction callbacks generalizing a with
  | nil => rfl
  | cons callback callbacks ih =>
      rw [List.foldl_cons, ih]
      cases callback with
      | link parent slot => exact state?_fill a parent slot n p
      | notify tag => rfl
      | update target change => rfl

theorem Shaped.serveAll (h : a.Shaped) (n : Serial) (callbacks : List Callback) :
    (callbacks.foldl (fun a c => a.serve n c) a).Shaped := by
  induction callbacks generalizing a with
  | nil => exact h
  | cons callback callbacks ih =>
      refine ih ?_
      cases callback with
      | link parent slot => exact h.fill parent slot n
      | notify tag => exact h
      | update target change => exact h

/-- Exactly the slots that waited are filled. -/
theorem slotAt?_serveAll (a : Arena) (n p : Serial) (j : ℕ) (callbacks : List Callback) :
    (callbacks.foldl (fun a c => a.serve n c) a).slotAt? p j =
      (a.slotAt? p j).map fun s =>
        if .link p j ∈ callbacks then (s.1, some (s.2.getD n)) else s := by
  induction callbacks generalizing a with
  | nil => simp
  | cons callback callbacks ih =>
      rw [List.foldl_cons, ih]
      cases callback with
      | link parent slot =>
          rw [serve, slotAt?_fill]
          by_cases hsame : p = parent ∧ j = slot
          · obtain ⟨rfl, rfl⟩ := hsame
            rw [if_pos ⟨rfl, rfl⟩, Option.map_map]
            congr 1
            funext s
            simp only [Function.comp, List.mem_cons, true_or, if_true]
            split <;> rfl
          · have hne : Callback.link p j ≠ .link parent slot := by
              rintro heq
              exact hsame (Callback.link.inj heq)
            rw [if_neg hsame]
            simp only [List.mem_cons, hne, false_or]
      | notify tag => simp [serve]
      | update target change => simp [serve]

end Arena

namespace Replica

variable {c : Replica} {id other : ContentId} {n m p : Serial} {k j : ℕ} {state : WireState}
  {callback : Callback}

/-- What waits for an id. -/
def waitingFor (c : Replica) (id : ContentId) : List Callback := c.waiting.getD id []

/-! ## Running what waits -/

theorem run_eq (c : Replica) (n : Serial) (callback : Callback) :
    ∃ updates notices,
      c.run n callback = { c with arena := c.arena.serve n callback, updates, notices } := by
  cases callback with
  | notify tag =>
      rw [run]
      split <;> exact ⟨_, _, rfl⟩
  | link parent slot => exact ⟨_, _, rfl⟩
  | update target change => exact ⟨_, _, rfl⟩

theorem runAll_eq (c : Replica) (n : Serial) (callbacks : List Callback) :
    ∃ updates notices,
      callbacks.foldl (fun c callback => c.run n callback) c =
        { c with
          arena := callbacks.foldl (fun a callback => a.serve n callback) c.arena
          updates
          notices } := by
  induction callbacks generalizing c with
  | nil => exact ⟨_, _, rfl⟩
  | cons callback callbacks ih =>
      obtain ⟨updates, notices, hhead⟩ := run_eq c n callback
      obtain ⟨updates', notices', hrest⟩ := ih (c.run n callback)
      rw [hhead] at hrest
      refine ⟨updates', notices', ?_⟩
      rw [List.foldl_cons, hhead, hrest]
      rfl

/-- Draining an id fills the slots that waited for it, and nothing waits for it any more. -/
theorem drain_eq (c : Replica) (id : ContentId) (n : Serial) :
    ∃ updates notices,
      c.drain id n =
        { c with
          arena := (c.waitingFor id).foldl (fun a callback => a.serve n callback) c.arena
          waiting := c.waiting.erase id
          updates
          notices } :=
  runAll_eq { c with waiting := c.waiting.erase id } n (c.waitingFor id)

theorem find?_drain (c : Replica) (id : ContentId) (n : Serial) (other : ContentId) :
    (c.drain id n).find? other = c.find? other := by
  obtain ⟨updates, notices, heq⟩ := drain_eq c id n
  rw [heq]
  rfl

theorem copies_drain (c : Replica) (id : ContentId) (n : Serial) :
    (c.drain id n).copies = c.copies := by
  obtain ⟨updates, notices, heq⟩ := drain_eq c id n
  rw [heq]

theorem arena_drain (c : Replica) (id : ContentId) (n : Serial) :
    (c.drain id n).arena =
      (c.waitingFor id).foldl (fun a callback => a.serve n callback) c.arena := by
  obtain ⟨updates, notices, heq⟩ := drain_eq c id n
  rw [heq]

theorem waitingFor_drain (c : Replica) (id : ContentId) (n : Serial) (other : ContentId) :
    (c.drain id n).waitingFor other = if other = id then [] else c.waitingFor other := by
  obtain ⟨updates, notices, heq⟩ := drain_eq c id n
  rw [heq]
  simp only [waitingFor, Std.TreeMap.getD_erase, Std.LawfulEqCmp.compare_eq_iff_eq,
    eq_comm (a := id)]

/-! ## Waiting -/

theorem waitingFor_wait (c : Replica) (id : ContentId) (callback : Callback) (other : ContentId) :
    (c.wait id callback).waitingFor other =
      c.waitingFor other ++ if other = id then [callback] else [] := by
  rw [wait, waitingFor, waitingFor, Std.TreeMap.getD_insert]
  simp only [Std.LawfulEqCmp.compare_eq_iff_eq, eq_comm (a := id)]
  split
  · next heq => rw [heq]
  · rw [List.append_nil]

/-! ## Filling the slots of an instance -/

/-- The replica after these slots of an instance have been filled or wait. -/
def linkAll (c : Replica) (n : Serial) (slots : List (ContentId × ℕ)) : Replica :=
  slots.foldl (fun c (id, slot) => c.load id (.link n slot)) c

theorem load_of_find? (hknown : c.find? id = some m) (callback : Callback) :
    c.load id callback = c.run m callback := by
  rw [load, hknown]

theorem load_of_unknown (hunknown : c.find? id = none) (callback : Callback) :
    c.load id callback = c.wait id callback := by
  rw [load, hunknown]

theorem linkAll_induction {motive : Replica → Prop} {slots : List (ContentId × ℕ)}
    (hstart : motive c)
    (hfill : ∀ c m slot, motive c → motive { c with arena := c.arena.fill n slot m })
    (hwait : ∀ c id slot, motive c → motive (c.wait id (.link n slot))) :
    motive (c.linkAll n slots) := by
  induction slots generalizing c with
  | nil => exact hstart
  | cons slot slots ih =>
      obtain ⟨id, k⟩ := slot
      refine ih (c := c.load id (.link n k)) ?_
      cases hfound : c.find? id with
      | some m =>
          rw [load_of_find? hfound]
          exact hfill c m k hstart
      | none =>
          rw [load_of_unknown hfound]
          exact hwait c id k hstart

theorem known_linkAll (c : Replica) (n : Serial) (slots : List (ContentId × ℕ)) :
    (c.linkAll n slots).known = c.known :=
  linkAll_induction (motive := fun d => d.known = c.known) rfl
    (fun _ _ _ h => h) fun _ _ _ h => h

theorem copies_linkAll (c : Replica) (n : Serial) (slots : List (ContentId × ℕ)) :
    (c.linkAll n slots).copies = c.copies :=
  linkAll_induction (motive := fun d => d.copies = c.copies) rfl
    (fun _ _ _ h => h) fun _ _ _ h => h

theorem shaped_linkAll (h : c.arena.Shaped) (n : Serial) (slots : List (ContentId × ℕ)) :
    (c.linkAll n slots).arena.Shaped :=
  linkAll_induction (motive := fun d => d.arena.Shaped) h
    (fun _ m slot h => h.fill n slot m) fun _ _ _ h => h

theorem state?_linkAll (c : Replica) (n : Serial) (slots : List (ContentId × ℕ)) (p : Serial) :
    (c.linkAll n slots).arena.state? p = c.arena.state? p :=
  linkAll_induction (motive := fun d => d.arena.state? p = c.arena.state? p) rfl
    (fun d m slot h => (d.arena.state?_fill n slot m p).trans h) fun _ _ _ h => h

theorem slotAt?_linkAll_of_ne (c : Replica) (hne : p ≠ n) (slots : List (ContentId × ℕ)) (j : ℕ) :
    (c.linkAll n slots).arena.slotAt? p j = c.arena.slotAt? p j :=
  linkAll_induction (motive := fun d => d.arena.slotAt? p j = c.arena.slotAt? p j) rfl
    (fun d m slot h => by rw [Arena.slotAt?_fill, if_neg fun hs => hne hs.1, h])
    fun _ _ _ h => h

/-- Each of the slots is filled if its id is known. -/
theorem slotAt?_linkAll (c : Replica) (n : Serial) (slots : List (ContentId × ℕ))
    (hnames : ∀ id k, (id, k) ∈ slots → (c.arena.slotAt? n k).map Prod.fst = some id) (j : ℕ) :
    (c.linkAll n slots).arena.slotAt? n j =
      (c.arena.slotAt? n j).map fun s =>
        if (s.1, j) ∈ slots then (s.1, s.2.or (c.find? s.1)) else s := by
  induction slots generalizing c with
  | nil => simp [linkAll]
  | cons slot slots ih =>
      obtain ⟨id, k⟩ := slot
      have hrest : ∀ id k, (id, k) ∈ slots → (c.arena.slotAt? n k).map Prod.fst = some id :=
        fun id k h => hnames id k (List.mem_cons_of_mem _ h)
      have hname := hnames id k (by simp)
      change ((c.load id (.link n k)).linkAll n slots).arena.slotAt? n j = _
      cases hfound : c.find? id with
      | none =>
          rw [load_of_unknown hfound, ih (c.wait id (.link n k)) hrest]
          change (c.arena.slotAt? n j).map _ = _
          congr 1
          funext s
          by_cases hs : (s.1, j) = (id, k)
          · obtain ⟨rfl, rfl⟩ := Prod.mk.inj hs
            have hunknown : (c.wait s.1 (.link n j)).find? s.1 = none := hfound
            simp [hfound, hunknown]
          · simp only [List.mem_cons, hs, false_or]
            rfl
      | some m =>
          have hfill (l : ℕ) : (c.run m (.link n k)).arena.slotAt? n l =
              if l = k then (c.arena.slotAt? n l).map fun s => (s.1, some (s.2.getD m))
              else c.arena.slotAt? n l := by
            change (c.arena.fill n k m).slotAt? n l = _
            rw [Arena.slotAt?_fill]
            simp
          have hnames' : ∀ id l, (id, l) ∈ slots →
              ((c.run m (.link n k)).arena.slotAt? n l).map Prod.fst = some id := by
            intro id l h
            rw [hfill, ← hrest id l h]
            split
            · rw [Option.map_map]
              rfl
            · rfl
          rw [load_of_find? hfound, ih (c.run m (.link n k)) hnames', hfill]
          by_cases hj : j = k
          · -- the slot is filled by now, so the rest does not change it
            subst hj
            rw [if_pos rfl, Option.map_map]
            obtain ⟨s, hs, rfl⟩ := Option.map_eq_some_iff.mp hname
            rw [hs, Option.map_some, Option.map_some]
            simp only [Function.comp, List.mem_cons, true_or, if_true, hfound]
            cases s.2 <;> simp
          · rw [if_neg hj]
            congr 1
            funext s
            have hne : (s.1, j) ≠ (id, k) := fun h => hj (Prod.mk.inj h).2
            simp only [List.mem_cons, hne, false_or]
            rfl

/-- The slots whose id is not known wait. -/
theorem waitingFor_linkAll (c : Replica) (n : Serial) (slots : List (ContentId × ℕ))
    (other : ContentId) :
    (c.linkAll n slots).waitingFor other =
      c.waitingFor other ++
        (slots.filter fun s => s.1 = other ∧ c.find? other = none).map fun s => .link n s.2 := by
  induction slots generalizing c with
  | nil => simp [linkAll]
  | cons slot slots ih =>
      obtain ⟨id, k⟩ := slot
      change ((c.load id (.link n k)).linkAll n slots).waitingFor other = _
      rw [ih]
      cases hfound : c.find? id with
      | none =>
          have hsame : (c.wait id (.link n k)).find? other = c.find? other := rfl
          rw [load_of_unknown hfound, hsame, waitingFor_wait]
          by_cases heq : id = other
          · subst heq
            simp [hfound]
          · simp [heq, Ne.symm heq]
      | some m =>
          have hsame : (c.run m (.link n k)).find? other = c.find? other := rfl
          have hwaiting : (c.run m (.link n k)).waitingFor other = c.waitingFor other := rfl
          rw [load_of_find? hfound, hsame, hwaiting]
          by_cases heq : id = other
          · subst heq
            simp [hfound]
          · simp [heq]

/-- The empty slots of an instance. -/
def emptySlotsOf (c : Replica) (n : Serial) : List (ContentId × ℕ) :=
  ((c.arena.get? n).map Instance.emptySlots).getD []

theorem mem_emptySlotsOf : (id, k) ∈ c.emptySlotsOf n ↔ c.arena.slotAt? n k = some (id, none) := by
  rw [emptySlotsOf, Arena.slotAt?]
  cases c.arena.get? n with
  | none => simp
  | some i => exact Instance.mem_emptySlots

theorem link_eq (c : Replica) (n : Serial) : c.link n = c.linkAll n (c.emptySlotsOf n) := by
  rw [link, emptySlotsOf]
  cases c.arena.get? n <;> rfl

theorem find?_link (c : Replica) (n : Serial) (id : ContentId) :
    (c.link n).find? id = c.find? id := by
  rw [link_eq, find?, known_linkAll, find?]

theorem copies_link (c : Replica) (n : Serial) : (c.link n).copies = c.copies := by
  rw [link_eq, copies_linkAll]

theorem state?_link (c : Replica) (n p : Serial) :
    (c.link n).arena.state? p = c.arena.state? p := by
  rw [link_eq, state?_linkAll]

theorem shaped_link (h : c.arena.Shaped) (n : Serial) : (c.link n).arena.Shaped := by
  rw [link_eq]
  exact shaped_linkAll h n _

theorem slotAt?_link_of_ne (c : Replica) (hne : p ≠ n) (j : ℕ) :
    (c.link n).arena.slotAt? p j = c.arena.slotAt? p j := by
  rw [link_eq, slotAt?_linkAll_of_ne c hne]

/-- Linking fills the slots whose id is known. -/
theorem slotAt?_link (c : Replica) (n : Serial) (j : ℕ) :
    (c.link n).arena.slotAt? n j =
      (c.arena.slotAt? n j).map fun s => (s.1, s.2.or (c.find? s.1)) := by
  have hnames : ∀ id k, (id, k) ∈ c.emptySlotsOf n →
      (c.arena.slotAt? n k).map Prod.fst = some id := by
    intro id k h
    rw [mem_emptySlotsOf.mp h]
    rfl
  rw [link_eq, slotAt?_linkAll c n _ hnames]
  cases hslot : c.arena.slotAt? n j with
  | none => rfl
  | some s =>
      obtain ⟨id, target⟩ := s
      cases target with
      | none =>
          have hmem : (id, j) ∈ c.emptySlotsOf n := mem_emptySlotsOf.mpr hslot
          simp [hmem]
      | some m => simp

theorem mem_waitingFor_link :
    callback ∈ (c.link n).waitingFor id ↔
      callback ∈ c.waitingFor id ∨
        c.find? id = none ∧ ∃ k, callback = .link n k ∧ c.arena.slotAt? n k = some (id, none) := by
  rw [link_eq, waitingFor_linkAll, List.mem_append]
  refine or_congr_right ?_
  simp only [List.mem_map, List.mem_filter, decide_eq_true_eq]
  constructor
  · rintro ⟨⟨other, k⟩, ⟨hmem, rfl, hunknown⟩, rfl⟩
    exact ⟨hunknown, k, rfl, mem_emptySlotsOf.mp hmem⟩
  · rintro ⟨hunknown, k, rfl, hslot⟩
    exact ⟨(id, k), ⟨mem_emptySlotsOf.mpr hslot, rfl, hunknown⟩, rfl⟩

theorem waitingFor_link_of_known (hknown : (c.find? id).isSome) :
    (c.link n).waitingFor id = c.waitingFor id := by
  have hsome : c.find? id ≠ none := Option.isSome_iff_ne_none.mp hknown
  rw [link_eq, waitingFor_linkAll]
  simp [hsome]

/-- An empty slot whose id is not known waits once more. -/
theorem count_waitingFor_link (c : Replica) (n : Serial) (id : ContentId) (p : Serial) (k : ℕ) :
    ((c.link n).waitingFor id).count (.link p k) =
      (c.waitingFor id).count (.link p k) +
        if p = n ∧ c.find? id = none ∧ c.arena.slotAt? n k = some (id, none) then 1 else 0 := by
  have hpositions : ((c.emptySlotsOf n).map Prod.snd).Nodup := by
    rw [emptySlotsOf]
    cases c.arena.get? n with
    | none => exact List.nodup_nil
    | some i => exact i.nodup_positions
  have hnodup : (((c.emptySlotsOf n).filter fun s => s.1 = id ∧ c.find? id = none).map
      fun s => Callback.link n s.2).Nodup := by
    have hkept : (((c.emptySlotsOf n).filter fun s => s.1 = id ∧ c.find? id = none).map
        Prod.snd).Nodup := hpositions.sublist (List.filter_sublist.map Prod.snd)
    have hlinks : (List.map (Callback.link n) _).Nodup :=
      List.Pairwise.map (Callback.link n) (fun j k hne heq => hne (Callback.link.inj heq).2) hkept
    rwa [List.map_map] at hlinks
  rw [link_eq, waitingFor_linkAll, List.count_append, hnodup.count]
  congr 1
  refine if_congr ?_ rfl rfl
  simp only [List.mem_map, List.mem_filter, decide_eq_true_eq]
  constructor
  · rintro ⟨⟨other, j⟩, ⟨hmem, rfl, hunknown⟩, heq⟩
    obtain ⟨rfl, rfl⟩ := Callback.link.inj heq
    exact ⟨rfl, hunknown, mem_emptySlotsOf.mp hmem⟩
  · rintro ⟨rfl, hunknown, hslot⟩
    exact ⟨(id, k), ⟨mem_emptySlotsOf.mpr hslot, rfl, hunknown⟩, rfl⟩

/-! ## Storing -/

/-- The replica that knows a new instance of a state under an id. -/
def keep (c : Replica) (id : ContentId) (state : WireState) : Replica :=
  { c with
    arena := c.arena.push (.ofState state)
    known := c.known.insert id c.arena.next
    copies := c.copies.erase id }

theorem store_of_named (h : state.contentId = id) :
    c.store id state = (c.keep id state, some c.arena.next) := if_pos h

theorem store_of_misnamed (h : state.contentId ≠ id) : c.store id state = (c, none) := if_neg h

theorem find?_keep (c : Replica) (id : ContentId) (state : WireState) (other : ContentId) :
    (c.keep id state).find? other = if other = id then some c.arena.next else c.find? other := by
  simp only [keep, find?, Std.TreeMap.getElem?_insert, Std.LawfulEqCmp.compare_eq_iff_eq,
    eq_comm (a := id)]

end Replica
end AppearanceSync
