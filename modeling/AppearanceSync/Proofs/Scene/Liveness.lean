import AppearanceSync.Proofs.Scene.Basic
import Mathlib.Algebra.Order.BigOperators.Group.List
import Mathlib.Data.Set.Card
import Mathlib.Logic.Relation

/-!
# What is registered is what can be reached

A registry counts holders; nobody in it looks for what can still be reached.  All
the same, an instance is registered exactly as long as a handle leads to it through
slots.  Each registered instance has a holder, which is a handle or a slot of a
higher registered instance.  Going up from holder to holder ends at a handle.
-/

namespace AppearanceSync

namespace Canonical

/-- The second appearance is the first, or stands in a slot of an appearance that
the first reaches. -/
def Reaches {κ : Type} : Canonical κ → Canonical κ → Prop :=
  Relation.ReflTransGen fun a b => b ∈ a.parts

end Canonical

namespace Registry

variable {r : Registry} {a b : Handle} {id : ContentId} {out : Multiset Handle}

/-- What a registered instance reaches is registered. -/
theorem Sound.find?_of_reaches (h : r.Sound out) (ha : r.find? a.id = some a)
    (hab : a.Reaches b) : r.find? b.id = some b := by
  induction hab with
  | refl => exact ha
  | tail _ hc ih => exact h.find?_of_mem_parts ih hc

/-- A registered instance has a holder. -/
theorem Sound.exists_holder (h : r.Sound out) (hb : r.find? id = some b) :
    b ∈ out ∨ ∃ a, r.find? a.id = some a ∧ b ∈ a.parts := by
  obtain ⟨e, he, rfl⟩ := Option.map_eq_some_iff.mp hb
  have hcount := h.used id e he
  rw [h.counted id e he, heldCount, Multiset.countP_pos] at hcount
  obtain ⟨c, hc, hid⟩ := hcount
  have hsame := h.registered c hc
  rw [hid, hb] at hsame
  obtain rfl := Option.some.inj hsame
  rcases Multiset.mem_add.mp hc with hout | hslot
  · exact Or.inl hout
  · obtain ⟨a, ha, hpart⟩ := Multiset.mem_bind.mp hslot
    exact Or.inr ⟨a, h.named.mem_live_iff.mp (Multiset.mem_coe.mp ha), hpart⟩

theorem exists_height_le (r : Registry) : ∃ top, ∀ a ∈ r.live, a.height ≤ top := by
  refine ⟨(r.live.map Canonical.height).sum, fun a ha => ?_⟩
  exact List.le_sum_of_mem (List.mem_map_of_mem ha)

/-- A handle leads to every registered instance. -/
theorem Sound.exists_reaches (h : r.Sound out) (hb : r.find? b.id = some b) :
    ∃ a ∈ out, a.Reaches b := by
  obtain ⟨top, htop⟩ := r.exists_height_le
  -- a holder that is a slot belongs to a higher instance, which cannot go on for ever
  induction hn : top - b.height using Nat.strong_induction_on generalizing b with
  | _ n ih =>
      rcases h.exists_holder hb with hout | ⟨a, ha, hpart⟩
      · exact ⟨b, hout, .refl⟩
      · have hlt := Canonical.height_lt_of_mem_parts hpart
        have hle := htop a (h.named.mem_live_iff.mpr ha)
        obtain ⟨root, hroot, hreaches⟩ := ih (top - a.height) (by omega) ha rfl
        exact ⟨root, hroot, hreaches.tail hpart⟩

theorem Sound.find?_eq_some_iff (h : r.Sound out) :
    r.find? id = some b ↔ (∃ a ∈ out, a.Reaches b) ∧ b.id = id := by
  constructor
  · intro hb
    obtain rfl := h.named id b hb
    exact ⟨h.exists_reaches hb, rfl⟩
  · rintro ⟨⟨a, ha, hab⟩, rfl⟩
    exact h.find?_of_reaches (h.find?_of_mem ha) hab

theorem lookup_snd (r : Registry) (id : ContentId) : (r.lookup id).2 = r.find? id := by
  rw [lookup]
  split
  · next a ha => exact ha.symm
  · next hnone => exact hnone.symm

theorem Named.mem_snapshot_iff (h : r.Named) {state : WireState} :
    (id, state) ∈ r.snapshot.entries ↔ ∃ b, r.find? id = some b ∧ b.toState = state := by
  have hlookup := congrFun (ofTable_snapshot h) id
  rw [Ledger.ofTable] at hlookup
  rw [← Snapshot.lookup_eq_some_iff r.snapshot.pairwise_ne, hlookup, ledger,
    Option.map_eq_some_iff]

theorem Named.size_eq_ncard (h : r.Named) :
    r.size = {id | (r.find? id).isSome}.ncard := by
  have hnodup : (r.live.map Canonical.id).Nodup := List.pairwise_map.mpr h.pairwise_live
  have hmem (id : ContentId) : (r.find? id).isSome ↔ id ∈ r.live.map Canonical.id := by
    rw [Option.isSome_iff_exists, List.mem_map]
    constructor
    · rintro ⟨a, ha⟩
      obtain rfl := h id a ha
      exact ⟨a, h.mem_live_iff.mpr ha, rfl⟩
    · rintro ⟨a, ha, rfl⟩
      exact ⟨a, h.mem_live_iff.mp ha⟩
  have hset : {id | (r.find? id).isSome} = ((r.live.map Canonical.id).toFinset : Set ContentId) :=
    Set.ext fun id => (hmem id).trans List.mem_toFinset.symm
  rw [hset, Set.ncard_coe_finset, List.toFinset_card_of_nodup hnodup, List.length_map, live,
    List.length_map, Std.TreeMap.length_toList]
  rfl

end Registry

namespace Scene

/-- The handles that somebody holds: the registry its plain appearance, callers what
they have taken, sprites what they show, and joining sessions that still wait in the
queue what was captured for them. -/
def holders (s : Scene) : List Handle :=
  Registry.standard ::
    (s.hub.held ++ s.worn ++ Registry.heldBy s.hub.registry.outbox.waiting.toList)

/-- Somebody's handle leads to the instance. -/
def Reachable (s : Scene) (b : Handle) : Prop := ∃ a ∈ s.holders, a.Reaches b

variable {s : Scene} {b : Handle} {id : ContentId}

theorem mem_holders_iff (s : Scene) (a : Handle) :
    a ∈ s.holders ↔ a ∈ s.flat.registry.outside s.flat.held := by
  rw [holders, flat, Registry.outside, Registry.queued, Multiset.mem_cons, Multiset.coe_add,
    Multiset.mem_coe, List.mem_cons]

theorem find?_eq_some_iff (hs : s.flat.Steady) :
    s.hub.registry.find? id = some b ↔ s.Reachable b ∧ b.id = id := by
  simp only [Reachable, mem_holders_iff]
  exact hs.balanced.sound.find?_eq_some_iff

/-- In every run, what is found under an id is what a handle leads to; so nothing is
lost that somebody still holds, and nothing is kept that nobody holds.  The table of
all appearances and their number agree with this.  Handles and slots that have the
same id have the same instance, which no other instance shares the serial of. -/
theorem registered_iff_reachable (maxDepth : ℕ) (acts : List Act) :
    let s := run maxDepth acts
    let r := s.hub.registry
    (∀ id b, (r.lookup id).2 = some b ↔ s.Reachable b ∧ b.id = id) ∧
    (∀ id, r.contains id = true ↔ ∃ b, s.Reachable b ∧ b.id = id) ∧
    (∀ id state, (id, state) ∈ r.snapshot.entries ↔
      ∃ b, s.Reachable b ∧ b.id = id ∧ b.toState = state) ∧
    r.size = {id | ∃ b, s.Reachable b ∧ b.id = id}.ncard ∧
    ∀ a b, s.Reachable a → s.Reachable b → a.id = b.id ∨ a.key = b.key → a = b := by
  intro s r
  have hs : s.flat.Steady := steady_run maxDepth acts
  have hnamed : r.Named := hs.balanced.sound.named
  have hfound (id : ContentId) (b : Handle) :
      r.find? id = some b ↔ s.Reachable b ∧ b.id = id := find?_eq_some_iff hs
  have hsome (id : ContentId) : (r.find? id).isSome = true ↔ ∃ b, s.Reachable b ∧ b.id = id := by
    rw [Option.isSome_iff_exists]
    exact exists_congr (hfound id)
  refine ⟨?_, ?_, ?_, ?_, ?_⟩
  · intro id b
    rw [Registry.lookup_snd]
    exact hfound id b
  · intro id
    rw [Registry.contains_eq_isSome_find?]
    exact hsome id
  · intro id state
    rw [hnamed.mem_snapshot_iff]
    refine exists_congr fun b => ?_
    rw [hfound, and_assoc]
  · rw [hnamed.size_eq_ncard]
    exact congrArg Set.ncard (Set.ext hsome)
  · intro a b ha hb hsame
    have ha := (hfound a.id a).mpr ⟨ha, rfl⟩
    have hb := (hfound b.id b).mpr ⟨hb, rfl⟩
    have hid : a.id = b.id := by
      rcases hsame with hid | hkey
      · exact hid
      · exact hs.balanced.numbered.own a.id b.id a b ha hb hkey
    rw [hid] at ha
    exact Option.some.inj (ha.symm.trans hb)

end Scene
end AppearanceSync
