import AppearanceSync.Proofs.Replica.Cycles
import AppearanceSync.Proofs.Resolution

/-!
# Copies of what has arrived

An instance that does not contain itself, directly or through others, has a tree, in which a slot
is filled exactly if the slot of the instance is.  However many slots share an instance and
whichever of them are filled, the walks through the arena answer what is to be answered of that
tree.  A replica that keeps copies while slots are still being filled hands out a copy exactly if
the check finds that everything has arrived.
-/

namespace AppearanceSync

open Relation (ReflTransGen TransGen)

namespace Arena

variable {a : Arena} {i : Instance} {n m : Serial} {k l : ℕ} {c b : Canonical Serial}

/-! ## The tree of an instance -/

mutual

/-- The tree is what an instance is with all that is below it. -/
inductive Shows (a : Arena) : Serial → Canonical Serial → Prop
  | mk {n : Serial} {i : Instance} {overlays underlays : List (Slot Serial)}
      (hi : a.get? n = some i)
      (hover : List.Forall₂ (ShowsSlot a) i.overlaySlots overlays)
      (hunder : List.Forall₂ (ShowsSlot a) i.underlaySlots underlays) :
      Shows a n (.mk n i.id i.state.properties overlays underlays)

/-- The slot of a tree is filled exactly if that of the instance is. -/
inductive ShowsSlot (a : Arena) : ContentId × Option Serial → Slot Serial → Prop
  | empty (id : ContentId) : ShowsSlot a (id, none) (.pending id)
  | filled (id : ContentId) {m : Serial} {c : Canonical Serial} (h : Shows a m c) :
      ShowsSlot a (id, some m) (.filled c)

end

theorem showsSlot_none {id : ContentId} {x : Slot Serial} (h : a.ShowsSlot (id, none) x) :
    x = .pending id := by
  cases h
  rfl

theorem showsSlot_some {id : ContentId} {x : Slot Serial} (h : a.ShowsSlot (id, some m) x) :
    ∃ b, x = .filled b ∧ a.Shows m b := by
  cases h with
  | filled _ hb => exact ⟨_, rfl, hb⟩

theorem mem_parts_of_filled (h : .filled b ∈ c.slots) : b ∈ c.parts :=
  List.mem_filterMap.mpr ⟨.filled b, h, rfl⟩

/-- An instance has one tree at most. -/
theorem Shows.unique {c' : Canonical Serial} (h : a.Shows n c) (h' : a.Shows n c') : c = c' := by
  induction c using Canonical.induction_on_parts generalizing n c' with
  | step c ih =>
      have hslot (x : Slot Serial) (hx : x ∈ c.slots) (s : ContentId × Option Serial)
          (y : Slot Serial) (hsx : a.ShowsSlot s x) (hsy : a.ShowsSlot s y) : x = y := by
        obtain ⟨id, target⟩ := s
        cases target with
        | none => rw [showsSlot_none hsx, showsSlot_none hsy]
        | some m =>
            obtain ⟨b, rfl, hb⟩ := showsSlot_some hsx
            obtain ⟨b', rfl, hb'⟩ := showsSlot_some hsy
            rw [ih b (mem_parts_of_filled hx) hb hb']
      obtain ⟨hi, hover, hunder⟩ := h
      obtain ⟨hi', hover', hunder'⟩ := h'
      obtain rfl := Option.some.inj (hi.symm.trans hi')
      rw [eq_of_forall₂ hover hover' fun x hx => hslot x (List.mem_append_left _ hx),
        eq_of_forall₂ hunder hunder' fun x hx => hslot x (List.mem_append_right _ hx)]

theorem Shows.exists_slots (h : a.Shows n c) :
    ∃ i, a.get? n = some i ∧ List.Forall₂ a.ShowsSlot i.slots c.slots := by
  obtain ⟨hi, hover, hunder⟩ := h
  refine ⟨_, hi, ?_⟩
  rw [← Instance.overlaySlots_append_underlaySlots]
  exact List.rel_append hover hunder

/-- What stands in a slot has a tree that is a part of the whole. -/
theorem Shows.exists_part (h : a.Shows n c) (hholds : a.Holds n m) :
    ∃ b ∈ c.parts, a.Shows m b := by
  obtain ⟨i, hi, hslots⟩ := h.exists_slots
  obtain ⟨k, id, hslot⟩ := hholds
  rw [slotAt?, hi, Option.bind_some] at hslot
  obtain ⟨x, hx, hshows⟩ := exists_mem_of_forall₂ hslots (List.mem_of_getElem? hslot)
  obtain ⟨b, rfl, hb⟩ := showsSlot_some hshows
  exact ⟨b, mem_parts_of_filled hx, hb⟩

/-- What an instance contains has a lower tree. -/
theorem Shows.exists_lower (h : a.Shows n c) (hway : TransGen a.Holds n m) :
    ∃ b, a.Shows m b ∧ b.height < c.height := by
  induction hway with
  | single hholds =>
      obtain ⟨b, hb, hshows⟩ := h.exists_part hholds
      exact ⟨b, hshows, Canonical.height_lt_of_mem_parts hb⟩
  | tail _ hholds ih =>
      obtain ⟨b, hshows, hlt⟩ := ih
      obtain ⟨d, hd, hshows⟩ := hshows.exists_part hholds
      exact ⟨d, hshows, (Canonical.height_lt_of_mem_parts hd).trans hlt⟩

/-- Neither the instance nor anything that it contains contains itself. -/
def FreeOfCycles (a : Arena) (n : Serial) : Prop :=
  ∀ m, ReflTransGen a.Holds n m → ¬TransGen a.Holds m m

theorem Shows.not_transGen (h : a.Shows n c) : ¬TransGen a.Holds n n := by
  intro hway
  obtain ⟨b, hb, hlt⟩ := h.exists_lower hway
  rw [hb.unique h] at hlt
  exact Nat.lt_irrefl _ hlt

theorem Shows.freeOfCycles (h : a.Shows n c) : a.FreeOfCycles n := by
  intro m hway
  rcases Relation.reflTransGen_iff_eq_or_transGen.mp hway with rfl | hway
  · exact h.not_transGen
  · obtain ⟨b, hb, -⟩ := h.exists_lower hway
    exact hb.not_transGen

/-! ## Finding the tree -/

/-- Every slot leads to an instance. -/
def Closed (a : Arena) : Prop := ∀ n m, a.Holds n m → m < a.next

theorem shows_unfold (hi : a.get? n = some i)
    (hslots : ∀ s ∈ i.slots, a.ShowsSlot s (slot (a.unfold l) s)) :
    ∃ c, a.unfold (l + 1) n = some c ∧ a.Shows n c := by
  rw [unfold, hi, Option.map_some]
  refine ⟨_, rfl, .mk hi ?_ ?_⟩
  · rw [List.forall₂_map_right_iff, List.forall₂_same]
    exact fun s hs => hslots s (List.mem_of_mem_take hs)
  · rw [List.forall₂_map_right_iff, List.forall₂_same]
    exact fun s hs => hslots s (List.mem_of_mem_drop hs)

theorem holds_of_mem_slots {id : ContentId} (hi : a.get? n = some i) (hs : (id, some m) ∈ i.slots) :
    a.Holds n m := by
  obtain ⟨k, hk⟩ := List.mem_iff_getElem?.mp hs
  exact ⟨k, id, by rw [slotAt?, hi, Option.bind_some, hk]⟩

/-- An instance that is free of cycles is seen as it is. -/
theorem FreeOfCycles.exists_view? (h : a.FreeOfCycles n) (hclosed : a.Closed) (hn : n < a.next) :
    ∃ c, a.view? n = some c ∧ a.Shows n c := by
  have hdescends : a.Descends (fun m => m < a.next ∧ ReflTransGen a.Holds n m)
      fun m => (a.contained m).card :=
    descends_of_closed (fun _ hm => hm.1)
      (fun m hm p hholds => ⟨hclosed m p hholds, hm.2.tail hholds⟩) fun m hm => h m hm.2
  refine hdescends.levels_suffice (F := fun l m => ∃ c, a.unfold l m = some c ∧ a.Shows m c)
    (fun _ hm => hm.1) ?_ ⟨hn, .refl⟩
  intro l m hm hlower
  obtain ⟨i, hi⟩ : ∃ i, a.get? m = some i := ⟨_, Array.getElem?_eq_getElem hm.1⟩
  refine shows_unfold hi fun s hs => ?_
  obtain ⟨id, target⟩ := s
  cases target with
  | none => exact .empty id
  | some p =>
      obtain ⟨c, hc, hshows⟩ := hlower p (holds_of_mem_slots hi hs)
      simp only [slot, Option.bind_some, hc]
      exact .filled id hshows

/-- A tree in which every slot is filled has not been cut off. -/
theorem exists_shows_of_resolvedWithin (h : a.resolvedWithin l n = true) :
    ∃ c, a.unfold l n = some c ∧ a.Shows n c := by
  induction l generalizing n with
  | zero => cases h
  | succ l ih =>
      rw [resolvedWithin, Option.any_eq_true] at h
      obtain ⟨i, hi, hall⟩ := h
      refine shows_unfold hi fun s hs => ?_
      have hresolved := List.all_eq_true.mp hall s hs
      obtain ⟨id, target⟩ := s
      obtain ⟨m, rfl, hm⟩ := (Option.any_eq_true _ _).mp hresolved
      obtain ⟨c, hc, hshows⟩ := ih hm
      simp only [slot, Option.bind_some, hc]
      exact .filled id hshows

/-! ## The answers -/

theorem descriptor?_eq_ok_iff : (∃ d, a.descriptor? n = some (.ok d)) ↔ a.isResolved n = true := by
  rw [descriptor?_eq, isResolved_eq]
  cases a.view? n with
  | none => simp
  | some c => simpa using c.answers.copied_iff

/-- The walks answer what is to be answered of an instance that is free of cycles. -/
theorem FreeOfCycles.answers (h : a.FreeOfCycles n) (hclosed : a.Closed) (hn : n < a.next) :
    ∃ c copy, a.Shows n c ∧ a.descriptor? n = some copy ∧ c.Answers (a.isResolved n) copy := by
  obtain ⟨c, hview, hshows⟩ := h.exists_view? hclosed hn
  refine ⟨c, c.toDescriptor, hshows, ?_, ?_⟩
  · rw [descriptor?_eq, hview, Option.map_some]
  · rw [isResolved_eq, hview, Option.any_some]
    exact c.answers

theorem Shows.lt_next (h : a.Shows n c) : n < a.next := by
  obtain ⟨i, hi, -⟩ := h.exists_slots
  exact lt_next_of_get? hi

/-- Of an instance with cycles the check does not find that everything has arrived. -/
theorem isResolved_iff (hclosed : a.Closed) :
    a.isResolved n = true ↔ ∃ c, a.Shows n c ∧ c.isFullyResolved = true := by
  have hview : a.isResolved n = true ↔ ∃ c, a.view? n = some c ∧ c.isFullyResolved = true := by
    rw [isResolved_eq, Option.any_eq_true]
  constructor
  · intro h
    obtain ⟨c, hc, hshows⟩ := exists_shows_of_resolvedWithin h
    obtain ⟨c', hc', hresolved⟩ := hview.mp h
    obtain rfl : c' = c := Option.some.inj (hc'.symm.trans hc)
    exact ⟨c', hshows, hresolved⟩
  · rintro ⟨c, hshows, hresolved⟩
    obtain ⟨c', hc', hshows'⟩ := hshows.freeOfCycles.exists_view? hclosed hshows.lt_next
    obtain rfl := hshows.unique hshows'
    exact hview.mpr ⟨c, hc', hresolved⟩

/-! ## Building an arena -/

/-- An instance of known parts, with all its slots filled. -/
def ofParts (a : Arena) (properties : Properties) (overlays underlays : List Serial) : Instance :=
  ⟨⟨properties, overlays.filterMap a.id?, underlays.filterMap a.id?⟩,
    (overlays ++ underlays).map some⟩

/-- An arena that is built by adding instances and filling slots.  An instance is added as it is
received, with empty slots, or from instances that are there already. -/
inductive Built : Arena → Prop
  | empty : Built .empty
  | received {a : Arena} (h : Built a) (state : WireState) : Built (a.push (.ofState state))
  | assembled {a : Arena} (h : Built a) (properties : Properties) (overlays underlays : List Serial)
      (hin : ∀ m ∈ overlays ++ underlays, m < a.next) :
      Built (a.push (a.ofParts properties overlays underlays))
  | resolved {a : Arena} (h : Built a) (n : Serial) (k : ℕ) (m : Serial) (hin : m < a.next) :
      Built (a.fill n k m)

theorem Closed.push (h : a.Closed) (hi : ∀ id m, (id, some m) ∈ i.slots → m < a.next) :
    (a.push i).Closed := by
  intro n m hholds
  have hnext : (a.push i).next = a.next + 1 := by simp [next, Arena.push]
  rw [hnext]
  obtain ⟨k, id, hslot⟩ := hholds
  rw [slotAt?, get?_push] at hslot
  split at hslot
  · exact Nat.lt_succ_of_lt (hi id m (List.mem_of_getElem? hslot))
  · exact Nat.lt_succ_of_lt (h n m ⟨k, id, hslot⟩)

theorem Closed.fill (h : a.Closed) (p : Serial) (k : ℕ) (hm : m < a.next) :
    (a.fill p k m).Closed := by
  intro n m' hholds
  have hnext : (a.fill p k m).next = a.next := by simp [next, Arena.fill]
  rw [hnext]
  obtain ⟨j, id, hslot⟩ := hholds
  rw [slotAt?_fill] at hslot
  split at hslot
  · obtain ⟨⟨ref, target⟩, hold, heq⟩ := Option.map_eq_some_iff.mp hslot
    cases target with
    | none =>
        obtain rfl : m = m' := by simpa using (Prod.mk.inj heq).2
        exact hm
    | some q =>
        obtain rfl : q = m' := by simpa using (Prod.mk.inj heq).2
        exact h n q ⟨j, ref, hold⟩
  · exact h n m' ⟨j, id, hslot⟩

theorem Built.closed (h : a.Built) : a.Closed := by
  induction h with
  | empty =>
      rintro n m ⟨k, id, hslot⟩
      simp [Arena.empty, slotAt?, get?] at hslot
  | received _ state ih =>
      apply ih.push
      intro id m hs
      simp [Instance.slots_ofState] at hs
  | assembled _ properties overlays underlays hin ih =>
      apply ih.push
      intro id m hs
      have htarget := (List.of_mem_zip hs).2
      obtain ⟨p, hp, heq⟩ := List.mem_map.mp htarget
      obtain rfl := Option.some.inj heq
      exact hin p hp
  | resolved _ n k m hin ih => exact ih.fill n k hin

end Arena

/-! ## Shared copies -/

namespace Replica

variable {r : Replica} {id : ContentId} {copy : SharedCopy}

theorem Settling.closed (hs : r.Settling [] []) : r.arena.Closed := by
  rintro n m ⟨k, id, hslot⟩
  obtain ⟨state, hstate, -⟩ := Option.map_eq_some_iff.mp (hs.filled n k id m hslot)
  obtain ⟨i, hi, -⟩ := Option.map_eq_some_iff.mp hstate
  exact Arena.lt_next_of_get? hi

/-- A copy that is handed out is that of the instance that is known now. -/
theorem Settling.exists_of_sharedCopy (hs : r.Settling [] [])
    (h : (r.sharedCopy id).2 = some copy) :
    ∃ n, r.find? id = some n ∧ r.arena.descriptor? n = some (.ok copy.descriptor) := by
  rw [Replica.sharedCopy] at h
  split at h
  · next kept hkept =>
      obtain rfl : kept = copy := Option.some.inj h
      exact hs.copied id kept hkept
  · split at h
    · next descriptor hfound =>
        obtain ⟨n, hn, hcopy⟩ := Option.bind_eq_some_iff.mp hfound
        obtain rfl := Option.some.inj h
        exact ⟨n, hn, hcopy⟩
    · cases h

theorem isSome_sharedCopy {n : Serial} {d : Descriptor} (hn : r.find? id = some n)
    (hd : r.arena.descriptor? n = some (.ok d)) : (r.sharedCopy id).2.isSome := by
  rw [sharedCopy]
  split
  · rfl
  · rw [hn, Option.bind_some, hd]
    rfl

theorem Settling.isSome_sharedCopy_iff (hs : r.Settling [] []) :
    (r.sharedCopy id).2.isSome ↔ ∃ n, r.find? id = some n ∧ r.arena.isResolved n = true := by
  constructor
  · intro h
    obtain ⟨copy, hcopy⟩ := Option.isSome_iff_exists.mp h
    obtain ⟨n, hn, hd⟩ := hs.exists_of_sharedCopy hcopy
    exact ⟨n, hn, Arena.descriptor?_eq_ok_iff.mp ⟨_, hd⟩⟩
  · rintro ⟨n, hn, hresolved⟩
    obtain ⟨d, hd⟩ := Arena.descriptor?_eq_ok_iff.mpr hresolved
    exact isSome_sharedCopy hn hd

/-- Of an instance that is free of cycles a copy is handed out exactly if its tree is resolved, and
it is the tree's. -/
theorem Settling.sharedCopy_of_freeOfCycles {n : Serial} (hs : r.Settling [] [])
    (hn : r.find? id = some n) (hfree : r.arena.FreeOfCycles n) :
    ∃ c, r.arena.Shows n c ∧ ((r.sharedCopy id).2.isSome ↔ c.isFullyResolved = true) ∧
      ∀ copy, (r.sharedCopy id).2 = some copy → c.toDescriptor = .ok copy.descriptor := by
  have hin : n < r.arena.next := by
    obtain ⟨state, hstate, -⟩ := Option.map_eq_some_iff.mp (hs.named id n hn)
    obtain ⟨i, hi, -⟩ := Option.map_eq_some_iff.mp hstate
    exact Arena.lt_next_of_get? hi
  obtain ⟨c, hview, hshows⟩ := hfree.exists_view? hs.closed hin
  refine ⟨c, hshows, ?_, fun copy hcopy => ?_⟩
  · calc (r.sharedCopy id).2.isSome
        ↔ ∃ m, r.find? id = some m ∧ r.arena.isResolved m = true := hs.isSome_sharedCopy_iff
      _ ↔ r.arena.isResolved n = true := by simp [hn]
      _ ↔ c.isFullyResolved = true := by simp [Arena.isResolved_eq, hview]
  · obtain ⟨m, hm, hcopied⟩ := hs.exists_of_sharedCopy hcopy
    obtain rfl : n = m := Option.some.inj (hn.symm.trans hm)
    rw [Arena.descriptor?_eq, hview] at hcopied
    exact Option.some.inj hcopied

/-- The check and the copy agree on every appearance, whatever of it has arrived, and the copy
blames the first slot in drawing order that is not filled.  They do so on trees, and on every
instance that is free of cycles in an arena whose slots lead to instances of that arena, of
which they answer what is to be answered of its tree.  Every arena that is built is such an
arena, and so is that of a replica, whatever it is told.  It hands out a copy exactly if the id
is known and the check finds that everything has arrived; and the copy, even if it was made and
kept before, is that of the instance that is known now.  If what is known under the id is free of
cycles, this is to say that its tree is resolved, and that the copy is the tree's.  An instance
with cycles never passes the check: the walk comes to an empty slot, or it runs out of levels,
which stands for a walk that never ends. -/
theorem copies_agree :
    (∀ (κ : Type) (a : Canonical κ), a.Answers a.isFullyResolved a.toDescriptor) ∧
    (∀ a : Arena, a.Closed → ∀ n < a.next, a.FreeOfCycles n →
      ∃ c copy, a.Shows n c ∧ a.descriptor? n = some copy ∧ c.Answers (a.isResolved n) copy) ∧
    (∀ a : Arena, a.Built → a.Closed) ∧
    ∀ (tileSize : ℕ) (calls : List Call) (id : ContentId),
      let r := calls.foldl call (empty tileSize)
      r.arena.Closed ∧
      ((r.sharedCopy id).2.isSome ↔ ∃ n, r.find? id = some n ∧ r.arena.isResolved n = true) ∧
      (∀ n, r.arena.isResolved n = true ↔
        ∃ c, r.arena.Shows n c ∧ c.isFullyResolved = true) ∧
      (∀ copy, (r.sharedCopy id).2 = some copy →
        ∃ n, r.find? id = some n ∧ r.arena.descriptor? n = some (.ok copy.descriptor)) ∧
      ∀ n, r.find? id = some n → r.arena.FreeOfCycles n →
        ∃ c, r.arena.Shows n c ∧
          ((r.sharedCopy id).2.isSome ↔ c.isFullyResolved = true) ∧
          ∀ copy, (r.sharedCopy id).2 = some copy → c.toDescriptor = .ok copy.descriptor := by
  refine ⟨fun κ a => a.answers, fun a ha n hn hfree => hfree.answers ha hn,
    fun a ha => ha.closed, ?_⟩
  intro tileSize calls id r
  have hs : r.Settling [] [] := settling_calls (settling_empty tileSize) calls
  exact ⟨hs.closed, hs.isSome_sharedCopy_iff, fun n => Arena.isResolved_iff hs.closed,
    fun copy hcopy => hs.exists_of_sharedCopy hcopy,
    fun n hn hfree => hs.sharedCopy_of_freeOfCycles hn hfree⟩

/-- In an arena where one instance stands in three slots, and one slot of that instance is
filled and the next is not, the one that is not is blamed. -/
theorem copies_agree_shared :
    let leaf : WireState := .ofProperties .plain
    let half : WireState := ⟨.plain, [leaf.contentId, ⟨7⟩], []⟩
    let parts := ((Arena.empty.push (.ofState leaf)).push (.ofState half)).fill 1 0 0
    let a := parts.push (parts.ofParts .plain [0, 1] [1, 1])
    a.Built ∧ a.FreeOfCycles 2 ∧ a.isResolved 2 = false ∧
      a.descriptor? 2 = some (.error (.unresolved ⟨7⟩)) ∧
      ∃ c, a.Shows 2 c ∧ c.unresolved.head? = some ⟨7⟩ := by
  intro leaf half parts a
  have hbuilt : a.Built :=
    .assembled (.resolved (.received (.received .empty leaf) half) 1 0 0 (by decide)) .plain
      [0, 1] [1, 1] (by decide)
  -- every slot leads to an instance that was added before
  have htargets : ∀ n < 3, ∀ i, a.get? n = some i → ∀ t ∈ i.targets, t.all (· < n) := by
    decide
  have hdescends : a.Descends (fun _ => True) fun n => n := by
    intro n _ m hholds
    have hn : n < 3 := hholds.lt_next
    obtain ⟨k, id, hslot⟩ := hholds
    obtain ⟨i, hi, hk⟩ := Option.bind_eq_some_iff.mp hslot
    have hmem := (List.of_mem_zip (List.mem_of_getElem? hk)).2
    exact ⟨trivial, by simpa using htargets n hn i hi (some m) hmem⟩
  have hfree : a.FreeOfCycles 2 := fun m _ => hdescends.not_transGen trivial
  obtain ⟨-, hwalks, hclosed, -⟩ := copies_agree
  obtain ⟨c, copy, hshows, hcopy, hanswers⟩ := hwalks a (hclosed a hbuilt) 2 (by decide) hfree
  have hblamed : a.descriptor? 2 = some (.error (.unresolved ⟨7⟩)) := by decide +kernel
  obtain rfl : copy = .error (.unresolved ⟨7⟩) := Option.some.inj (hcopy.symm.trans hblamed)
  obtain ⟨id, hfirst, hid⟩ := (hanswers.blamed_iff _).mp rfl
  obtain rfl := AppearanceError.unresolved.inj hid
  exact ⟨hbuilt, hfree, by decide +kernel, hblamed, c, hshows, hfirst⟩

end Replica
end AppearanceSync
