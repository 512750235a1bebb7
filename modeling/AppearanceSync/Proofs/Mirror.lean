import AppearanceSync.Proofs.Replica.Descent
import AppearanceSync.Proofs.Replica.Tracking

/-!
# Mirrors of a registry

A ledger has states only.  A replica that tracks the ledger of a registry has more
in common with the registry: below each of its instances stands what stands below
the registered instance, as far down as that goes.
-/

namespace AppearanceSync

namespace Replica

/-- The replica has exactly what is registered: in the same states, with every slot
filled at every level, with the same editable copies, and with no instance that
contains itself. -/
structure Mirrors (c : Replica) (r : Registry) : Prop where
  ids : ∀ id, (c.find? id).isSome = r.contains id
  same : ∀ id a, r.find? id = some a → ∃ n, c.find? id = some n ∧
    c.arena.state? n = some a.toState ∧ c.arena.isResolved n = true ∧
    c.arena.descriptor? n = some a.toDescriptor
  acyclic : ∀ id n, c.find? id = some n → ¬Relation.TransGen c.arena.Holds n n

variable {c : Replica} {r : Registry} {out : Multiset Handle} {id : ContentId} {a b : Handle}
  {n m : Serial}

/-! ## Instances and what they mirror -/

theorem Tracks.state_eq (h : c.Tracks r.ledger) (ha : r.find? id = some a) :
    ∃ n, c.find? id = some n ∧ c.arena.state? n = some a.toState := by
  have hid := congrFun h.ledger id
  rw [Registry.ledger, ha, Replica.ledger] at hid
  exact Option.bind_eq_some_iff.mp hid

/-- The slots of a known instance hold what is known under the ids of the parts. -/
theorem Tracks.slots_eq (h : c.Tracks r.ledger) (hr : r.Balanced out) (ha : r.find? id = some a)
    (hn : c.find? id = some n) :
    ∃ i, c.arena.get? n = some i ∧ i.state = a.toState ∧
      i.slots = a.slots.map fun s => (s.id, c.find? s.id) := by
  obtain ⟨n', hn', hstate⟩ := h.state_eq ha
  obtain rfl : n = n' := Option.some.inj (hn.symm.trans hn')
  obtain ⟨i, hi, hsame⟩ := Option.map_eq_some_iff.mp hstate
  refine ⟨i, hi, hsame, ?_⟩
  have hnames : i.slots.map Prod.fst = a.slots.map Slot.id := by
    rw [h.settling.shaped n i hi, hsame]
    simp [Canonical.toState, WireState.references, Canonical.slots]
  have hlength : i.slots.length = a.slots.length := by
    simpa using congrArg List.length hnames
  apply List.ext_getElem? fun k => ?_
  rw [List.getElem?_map]
  cases hk : a.slots[k]? with
  | none =>
      rw [List.getElem?_eq_none_iff] at hk
      rw [Option.map_none, List.getElem?_eq_none_iff]
      omega
  | some s =>
      have hname := congrArg (fun names => names[k]?) hnames
      simp only [List.getElem?_map, hk, Option.map_some] at hname
      obtain ⟨⟨ref, target⟩, hslot, rfl⟩ := Option.map_eq_some_iff.mp hname
      have hat : c.arena.slotAt? n k = some (s.id, target) := by
        rw [Arena.slotAt?, hi]
        exact hslot
      rw [hslot, Option.map_some]
      cases target with
      | some m => rw [h.current id n hn k s.id m hat]
      | none =>
          -- a slot cannot be empty, since the part that belongs there is known
          obtain ⟨b, rfl, hb, -⟩ := hr.exists_part ha (List.mem_of_getElem? hk)
          obtain ⟨m, hm, -⟩ := h.state_eq hb
          have hreason := (h.settling.empty n k _ hat List.not_mem_nil).1
          have hunknown := hreason.resolve_right List.not_mem_nil
          rw [Slot.id, hm] at hunknown
          simp at hunknown

/-- The instance is known under the id of a registered instance. -/
def Mirrored (c : Replica) (r : Registry) (n : Serial) : Prop :=
  ∃ id a, r.find? id = some a ∧ c.find? id = some n

/-- The height of the registered instance that an instance mirrors. -/
def heightAt (c : Replica) (r : Registry) (n : Serial) : ℕ :=
  (((c.arena.id? n).bind r.find?).map Canonical.height).getD 0

theorem Tracks.heightAt_eq (h : c.Tracks r.ledger) (ha : r.find? id = some a)
    (hn : c.find? id = some n) : c.heightAt r n = a.height := by
  rw [heightAt, h.settling.named id n hn, Option.bind_some, ha]
  rfl

theorem Tracks.descends (h : c.Tracks r.ledger) (hr : r.Balanced out) :
    c.arena.Descends (c.Mirrored r) (c.heightAt r) := by
  rintro n ⟨id, a, ha, hn⟩ m ⟨k, ref, hslot⟩
  obtain ⟨i, hi, -, hslots⟩ := h.slots_eq hr ha hn
  rw [Arena.slotAt?, hi, Option.bind_some, hslots, List.getElem?_map] at hslot
  obtain ⟨s, hs, heq⟩ := Option.map_eq_some_iff.mp hslot
  obtain ⟨b, rfl, hb, hlt⟩ := hr.exists_part ha (List.mem_of_getElem? hs)
  have hm : c.find? b.id = some m := (Prod.mk.inj heq).2
  refine ⟨⟨b.id, b, hb, hm⟩, ?_⟩
  rwa [h.heightAt_eq hb hm, h.heightAt_eq ha hn]

theorem Tracks.isResolved (h : c.Tracks r.ledger) (hr : r.Balanced out)
    (hn : c.Mirrored r n) : c.arena.isResolved n = true := by
  refine (h.descends hr).isResolved ?_ hn
  rintro n ⟨id, a, ha, hn⟩
  obtain ⟨i, hi, -, hslots⟩ := h.slots_eq hr ha hn
  refine ⟨i, hi, fun slot hslot => ?_⟩
  rw [hslots, List.mem_map] at hslot
  obtain ⟨s, hs, rfl⟩ := hslot
  obtain ⟨b, rfl, hb, -⟩ := hr.exists_part ha hs
  obtain ⟨m, hm, -⟩ := h.state_eq hb
  rw [Slot.id, hm, Option.isSome_some]

theorem Tracks.descriptor?_eq (h : c.Tracks r.ledger) (hr : r.Balanced out)
    (ha : r.find? id = some a) (hn : c.find? id = some n) :
    c.arena.descriptor? n = some a.toDescriptor := by
  have hin : ∀ n, c.Mirrored r n → n < c.arena.next := by
    rintro n ⟨id, a, ha, hn⟩
    obtain ⟨i, hi, -⟩ := h.slots_eq hr ha hn
    exact (Array.getElem?_eq_some_iff.mp hi).1
  refine (h.descends hr).levels_suffice (F := fun l n => ∀ id a, r.find? id = some a →
    c.find? id = some n → c.arena.descriptorWithin l n = some a.toDescriptor) hin
    ?_ ⟨id, a, ha, hn⟩ id a ha hn
  intro l n _ hlower id a ha hn
  obtain ⟨i, hi, hstate, hslots⟩ := h.slots_eq hr ha hn
  have hcopy (s : Slot Serial) (hs : s ∈ a.slots) :
      Arena.slotCopy (c.arena.descriptorWithin l) (s.id, c.find? s.id) =
        Canonical.slotDescriptor s := by
    obtain ⟨b, rfl, hb, -⟩ := hr.exists_part ha hs
    obtain ⟨m, hm, -⟩ := h.state_eq hb
    obtain ⟨k, hk⟩ := List.mem_iff_getElem?.mp hs
    have hholds : c.arena.Holds n m := by
      refine ⟨k, b.id, ?_⟩
      rw [Arena.slotAt?, hi, Option.bind_some, hslots, List.getElem?_map, hk, Option.map_some,
        Slot.id, hm]
    rw [Slot.id, hm, Arena.slotCopy, Option.bind_some, hlower m hholds b.id b hb hm]
    rfl
  have hlength : i.state.overlays.length = a.overlays.length := by
    rw [hstate, Canonical.toState, List.length_map]
  rw [Canonical.slots, List.map_append] at hslots
  have hover : i.overlaySlots = a.overlays.map fun s => (s.id, c.find? s.id) := by
    rw [Instance.overlaySlots, hslots, hlength, List.take_left' (List.length_map _)]
  have hunder : i.underlaySlots = a.underlays.map fun s => (s.id, c.find? s.id) := by
    rw [Instance.underlaySlots, hslots, hlength, List.drop_left' (List.length_map _)]
  have hovers := mapM_congr fun s hs => hcopy s (List.mem_append_left _ hs)
  have hunders := mapM_congr fun s hs => hcopy s (List.mem_append_right _ hs)
  rw [Arena.descriptorWithin, hi, Option.map_some, hover, hunder, List.mapM_map, List.mapM_map,
    Canonical.toDescriptor_eq, hstate, ← hovers, ← hunders]
  rfl

/-- A replica that tracks the ledger of a registry mirrors the registry. -/
theorem Tracks.mirrors (h : c.Tracks r.ledger) (hr : r.Balanced out) : c.Mirrors r := by
  have hids (id : ContentId) : (c.find? id).isSome = r.contains id := by
    rw [← h.settling.isSome_ledger, h.ledger, Registry.isSome_ledger]
  refine ⟨hids, ?_, ?_⟩
  · intro id a ha
    obtain ⟨n, hn, hstate⟩ := h.state_eq ha
    exact ⟨n, hn, hstate, h.isResolved hr ⟨id, a, ha, hn⟩, h.descriptor?_eq hr ha hn⟩
  · intro id n hn
    have hregistered : (r.find? id).isSome := by
      rw [← Registry.contains_eq_isSome_find?, ← hids, hn]
      rfl
    obtain ⟨a, ha⟩ := Option.isSome_iff_exists.mp hregistered
    exact (h.descends hr).not_transGen ⟨id, a, ha, hn⟩

end Replica
end AppearanceSync
