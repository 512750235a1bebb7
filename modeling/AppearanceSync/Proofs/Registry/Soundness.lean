import AppearanceSync.Proofs.Registry.Table
import Mathlib.Algebra.Order.Group.Multiset
import Mathlib.Tactic.Abel

/-!
# Sound registries

A registry is sound when its counts of holders agree with what is really held:
by the handles that were given out, which the registry itself does not know, and
by the slots of registered instances.  The elementary changes keep a registry
sound, provided that the collection of handles given out is adjusted.
-/

namespace AppearanceSync
namespace Registry

/-- Everything that holds an instance: the handles that were given out, and the
slots of registered instances. -/
def allHeld (r : Registry) (out : Multiset Handle) : Multiset Handle :=
  out + (r.live : Multiset Handle).bind fun a => (a.parts : Multiset Handle)

/-- How much holds the instance of an id. -/
def heldCount (r : Registry) (out : Multiset Handle) (id : ContentId) : ℕ :=
  (r.allHeld out).countP fun a => a.id = id

/-- The registry's table agrees with what holds the registered instances. -/
structure Sound (r : Registry) (out : Multiset Handle) : Prop where
  named : r.Named
  hashed : ∀ id a, r.find? id = some a → a.id = a.toState.contentId
  full : ∀ id a, r.find? id = some a → ∀ s ∈ a.slots, s.isFilled = true
  registered : ∀ a ∈ r.allHeld out, r.find? a.id = some a
  counted : ∀ (id : ContentId) (e : RegistryEntry), r.entries[id]? = some e →
    e.holders = r.heldCount out id
  used : ∀ (id : ContentId) (e : RegistryEntry), r.entries[id]? = some e → 0 < e.holders

variable {r r' : Registry} {a b : Handle} {id : ContentId} {out : Multiset Handle}

/-! ## Consequences -/

theorem allHeld_cons (r : Registry) (a : Handle) (out : Multiset Handle) :
    r.allHeld (a ::ₘ out) = a ::ₘ r.allHeld out := Multiset.cons_add _ _ _

theorem heldCount_cons (r : Registry) (a : Handle) (out : Multiset Handle) (id : ContentId) :
    r.heldCount (a ::ₘ out) id = r.heldCount out id + if a.id = id then 1 else 0 := by
  rw [heldCount, allHeld_cons, Multiset.countP_cons, heldCount]

theorem mem_allHeld_of_mem_out (ha : a ∈ out) : a ∈ r.allHeld out :=
  Multiset.mem_add.mpr (Or.inl ha)

theorem Sound.find?_of_mem (h : r.Sound out) (ha : a ∈ out) : r.find? a.id = some a :=
  h.registered a (mem_allHeld_of_mem_out ha)

/-- What stands in a slot of a registered instance is registered. -/
theorem Sound.find?_of_mem_parts (h : r.Sound out) (ha : r.find? id = some a)
    (hb : b ∈ a.parts) : r.find? b.id = some b := by
  apply h.registered
  refine Multiset.mem_add.mpr (Or.inr (Multiset.mem_bind.mpr ⟨a, ?_, hb⟩))
  exact Multiset.mem_coe.mpr (mem_live_iff.mpr ⟨id, ha⟩)

theorem Sound.entry_of_mem (h : r.Sound out) (ha : a ∈ out) :
    ∃ e, r.entries[a.id]? = some e ∧ e.handle = a :=
  Option.map_eq_some_iff.mp (h.find?_of_mem ha)

/-- If an id has no holder but one given-out handle, no slot of a registered instance has it. -/
theorem Sound.no_parent_of_last (h : r.Sound (a ::ₘ out)) {e : RegistryEntry}
    (he : r.entries[a.id]? = some e) (hlast : e.holders ≤ 1) :
    ∀ b ∈ r.allHeld out, b.id ≠ a.id := by
  have hcount := h.counted a.id e he
  rw [heldCount_cons, if_pos rfl] at hcount
  have hzero : r.heldCount out a.id = 0 := by omega
  exact Multiset.countP_eq_zero.mp hzero

/-! ## Changes that leave the table's instances as they are -/

theorem allHeld_eq_of_find?_eq (h : r.Named) (hfind : r'.find? = r.find?)
    (out : Multiset Handle) :
    r'.allHeld out = r.allHeld out := by
  rw [allHeld, allHeld, live_eq_of_find?_eq h hfind]

theorem Sound.of_entries_eq (h : r.Sound out) (he : r'.entries = r.entries) :
    r'.Sound out := by
  have hfind : r'.find? = r.find? := by
    funext id
    simp [find?, he]
  have hheld := allHeld_eq_of_find?_eq h.named hfind out
  constructor
  · intro id a ha
    exact h.named id a (hfind ▸ ha)
  · rw [hfind]
    exact h.hashed
  · rw [hfind]
    exact h.full
  · rw [hheld, hfind]
    exact h.registered
  · rw [he]
    intro id e hid
    rw [heldCount, hheld]
    exact h.counted id e hid
  · rw [he]
    exact h.used

/-- If the lookups stay the same, only the counts are to be checked. -/
theorem Sound.of_find?_eq {out' : Multiset Handle} (h : r.Sound out)
    (hfind : r'.find? = r.find?) (hout : ∀ a ∈ out', r.find? a.id = some a)
    (hcounted : ∀ (id : ContentId) (e : RegistryEntry), r'.entries[id]? = some e →
      e.holders = r.heldCount out' id)
    (hused : ∀ (id : ContentId) (e : RegistryEntry), r'.entries[id]? = some e → 0 < e.holders) : r'.Sound out' := by
  have hheld := allHeld_eq_of_find?_eq h.named hfind out'
  constructor
  · intro id a ha
    exact h.named id a (hfind ▸ ha)
  · rw [hfind]
    exact h.hashed
  · rw [hfind]
    exact h.full
  · rw [hheld, hfind]
    intro a ha
    rcases Multiset.mem_add.mp ha with ha | ha
    · exact hout a ha
    · exact h.registered a (Multiset.mem_add.mpr (Or.inr ha))
  · intro id e he
    rw [heldCount, hheld]
    exact hcounted id e he
  · exact hused

theorem Sound.retain (h : r.Sound out) (ha : r.find? a.id = some a) :
    (r.retain a).Sound (a ::ₘ out) := by
  have hentries (id : ContentId) : (r.retain a).entries[id]? =
      if a.id = id then (r.entries[id]?).map fun e => { e with holders := e.holders + 1 }
      else r.entries[id]? := by
    simp only [Registry.retain, Std.TreeMap.getElem?_modify, Std.LawfulEqCmp.compare_eq_iff_eq]
    split
    · next heq => rw [heq]
    · rfl
  refine h.of_find?_eq (funext (find?_retain r a)) ?_ ?_ ?_
  · intro b hb
    rcases Multiset.mem_cons.mp hb with rfl | hb
    · exact ha
    · exact h.find?_of_mem hb
  · intro id e he
    rw [hentries] at he
    rw [heldCount_cons]
    split at he
    · next heq =>
        obtain ⟨e, hold, rfl⟩ := Option.map_eq_some_iff.mp he
        rw [if_pos heq, ← h.counted id e hold]
    · next hne =>
        rw [if_neg hne]
        exact h.counted id e he
  · intro id e he
    rw [hentries] at he
    split at he
    · obtain ⟨e, -, rfl⟩ := Option.map_eq_some_iff.mp he
      exact Nat.succ_pos _
    · exact h.used id e he

/-- A holder that is not the last lets go. -/
theorem Sound.letGo_of_kept (h : r.Sound (a ::ₘ out))
    (hkept : (r.letGo a.key a.id).2 = false) : (r.letGo a.key a.id).1.Sound out := by
  obtain ⟨e, he, hkey⟩ := h.entry_of_mem (Multiset.mem_cons_self a out)
  have hfind := find?_letGo_of_kept hkept
  rw [letGo_eq_of_entry he hkey] at hkept hfind ⊢
  by_cases hlast : e.holders ≤ 1
  · simp [hlast] at hkept
  rw [if_neg hlast] at hfind ⊢
  refine h.of_find?_eq hfind ?_ ?_ ?_
  · intro b hb
    exact h.find?_of_mem (Multiset.mem_cons_of_mem hb)
  · intro id f hf
    simp only [Std.TreeMap.getElem?_insert, Std.LawfulEqCmp.compare_eq_iff_eq] at hf
    split at hf
    · next heq =>
        subst heq
        have hcount := h.counted a.id e he
        rw [heldCount_cons, if_pos rfl] at hcount
        obtain rfl := Option.some.inj hf
        simp only
        omega
    · next hne =>
        have hcount := h.counted id f hf
        rwa [heldCount_cons, if_neg hne] at hcount
  · intro id f hf
    simp only [Std.TreeMap.getElem?_insert, Std.LawfulEqCmp.compare_eq_iff_eq] at hf
    split at hf
    · obtain rfl := Option.some.inj hf
      simp only
      omega
    · exact h.used id f hf

/-! ## Removal and registration -/

/-- The last holder lets go: the instance leaves the table, and what stood in its
slots is held by nobody but the handles that are given out with it. -/
theorem Sound.letGo_of_last (h : r.Sound (a ::ₘ out))
    (hlast : (r.letGo a.key a.id).2 = true) :
    (r.letGo a.key a.id).1.Sound (a.parts + out) := by
  obtain ⟨e, he, hkey⟩ := h.entry_of_mem (Multiset.mem_cons_self a out)
  rw [letGo_eq_of_entry he hkey] at hlast ⊢
  by_cases hone : e.holders ≤ 1
  swap
  · simp [hone] at hlast
  rw [if_pos hone]
  have hfind := find?_remove r a.id
  have hno := h.no_parent_of_last he hone
  have hbefore (id : ContentId) (b : Handle) (hb : (r.remove a.id).find? id = some b) :
      r.find? id = some b := by
    rw [hfind] at hb
    split at hb
    · simp at hb
    · exact hb
  have hnamed : (r.remove a.id).Named := fun id b hb => h.named id b (hbefore id b hb)
  have hlive : (r.live : Multiset Handle) = a ::ₘ (r.remove a.id).live := by
    refine live_eq_cons_of_find?_eq hnamed (by simp [hfind]) fun id => ?_
    rw [hfind]
    split
    · next heq => rw [heq, h.find?_of_mem (Multiset.mem_cons_self a out)]
    · rfl
  have hheld : (r.remove a.id).allHeld (a.parts + out) = r.allHeld out := by
    rw [allHeld, allHeld, hlive, Multiset.cons_bind]
    abel
  have hentries (id : ContentId) : (r.remove a.id).entries[id]? =
      if a.id = id then none else r.entries[id]? := by
    simp only [Registry.remove, entries_publish, Std.TreeMap.getElem?_erase,
      Std.LawfulEqCmp.compare_eq_iff_eq]
  refine ⟨hnamed, ?_, ?_, ?_, ?_, ?_⟩
  · exact fun id b hb => h.hashed id b (hbefore id b hb)
  · exact fun id b hb => h.full id b (hbefore id b hb)
  · intro b hb
    rw [hheld] at hb
    rw [hfind, if_neg (hno b hb)]
    apply h.registered
    rw [allHeld_cons]
    exact Multiset.mem_cons_of_mem hb
  · intro id f hf
    rw [hentries] at hf
    split at hf
    · simp at hf
    · next hne =>
        have hcount := h.counted id f hf
        rw [heldCount_cons, if_neg hne] at hcount
        rw [heldCount, hheld]
        exact hcount
  · intro id f hf
    rw [hentries] at hf
    split at hf
    · simp at hf
    · exact h.used id f hf

/-- An instance of new content takes over the handles of its parts. -/
theorem Sound.register (h : r.Sound (a.parts + out)) (hnew : r.find? a.id = none)
    (hhash : a.id = a.toState.contentId) (hfull : ∀ s ∈ a.slots, s.isFilled = true) :
    (r.register a).Sound (a ::ₘ out) := by
  have hfind := find?_register r a
  have hlive : ((r.register a).live : Multiset Handle) = a ::ₘ r.live :=
    live_eq_cons_of_find?_eq h.named hnew hfind
  have hheld : (r.register a).allHeld (a ::ₘ out) = a ::ₘ r.allHeld (a.parts + out) := by
    rw [allHeld, allHeld, hlive, Multiset.cons_bind, Multiset.cons_add]
    congr 1
    abel
  have hno : ∀ b ∈ r.allHeld (a.parts + out), b.id ≠ a.id := by
    intro b hb heq
    have := h.registered b hb
    rw [heq, hnew] at this
    simp at this
  have hentries (id : ContentId) : (r.register a).entries[id]? =
      if a.id = id then some ⟨a, 1⟩ else r.entries[id]? := by
    simp only [Registry.register, entries_publish, Std.TreeMap.getElem?_insert,
      Std.LawfulEqCmp.compare_eq_iff_eq]
  constructor
  · intro id b hb
    rw [hfind] at hb
    split at hb
    · next heq => simp_all
    · exact h.named id b hb
  · intro id b hb
    rw [hfind] at hb
    split at hb
    · obtain rfl := Option.some.inj hb
      exact hhash
    · exact h.hashed id b hb
  · intro id b hb
    rw [hfind] at hb
    split at hb
    · obtain rfl := Option.some.inj hb
      exact hfull
    · exact h.full id b hb
  · intro b hb
    rw [hheld] at hb
    rcases Multiset.mem_cons.mp hb with rfl | hb
    · rw [hfind, if_pos rfl]
    · rw [hfind, if_neg (hno b hb)]
      exact h.registered b hb
  · intro id f hf
    rw [hentries] at hf
    rw [heldCount, hheld, Multiset.countP_cons]
    split at hf
    · next heq =>
        subst heq
        obtain rfl := Option.some.inj hf
        rw [if_pos rfl, Multiset.countP_eq_zero.mpr hno]
    · next hne =>
        rw [if_neg hne]
        exact h.counted id f hf
  · intro id f hf
    rw [hentries] at hf
    split at hf
    · obtain rfl := Option.some.inj hf
      exact Nat.one_pos
    · exact h.used id f hf

theorem sound_empty (maxDepth : ℕ) : (empty maxDepth).Sound 0 := by
  have hfind (id : ContentId) : (empty maxDepth).find? id = none := by
    simp [find?, empty]
  have hlive : (empty maxDepth).live = [] := by
    rw [List.eq_nil_iff_forall_not_mem]
    intro a ha
    obtain ⟨id, hid⟩ := mem_live_iff.mp ha
    simp [hfind] at hid
  constructor
  · intro id a ha
    simp [hfind] at ha
  · intro id a ha
    simp [hfind] at ha
  · intro id a ha
    simp [hfind] at ha
  · intro a ha
    simp [allHeld, hlive] at ha
  · intro id e he
    simp [empty] at he
  · intro id e he
    simp [empty] at he

/-! ## Serials -/

/-- The serials of registered instances have been given out, each of them once. -/
structure Numbered (r : Registry) : Prop where
  given : ∀ id a, r.find? id = some a → a.key < r.nextSerial
  own : ∀ id id' a b, r.find? id = some a → r.find? id' = some b → a.key = b.key → id = id'

theorem Numbered.of_find? (h : r.Numbered) (hnext : r'.nextSerial = r.nextSerial)
    (hfind : ∀ id a, r'.find? id = some a → r.find? id = some a) : r'.Numbered where
  given id a ha := by
    rw [hnext]
    exact h.given id a (hfind id a ha)
  own id id' a b ha hb := h.own id id' a b (hfind id a ha) (hfind id' b hb)

theorem nextSerial_announce (r : Registry) (e : OutboundEvent) :
    (r.announce e).nextSerial = r.nextSerial := by
  unfold announce
  split <;> rfl

theorem nextSerial_letGo (r : Registry) (serial : Serial) (id : ContentId) :
    (r.letGo serial id).1.nextSerial = r.nextSerial := by
  unfold letGo
  split
  · rfl
  · split_ifs
    · rfl
    · exact nextSerial_announce r _
    · rfl

/-- A new instance takes the next serial. -/
theorem Numbered.register (h : r.Numbered) (hkey : a.key = r.nextSerial) :
    (r.register a).Numbered := by
  have hnext : (r.register a).nextSerial = r.nextSerial + 1 :=
    congrArg (· + 1) (nextSerial_announce r _)
  have hnew (id : ContentId) (b : Handle) (hb : r.find? id = some b) : b.key ≠ a.key := by
    rw [hkey]
    exact Nat.ne_of_lt (h.given id b hb)
  constructor
  · intro id b hb
    rw [find?_register] at hb
    rw [hnext]
    split at hb
    · obtain rfl := Option.some.inj hb
      exact Nat.lt_succ_of_le hkey.le
    · exact Nat.lt_succ_of_lt (h.given id b hb)
  · intro id id' b c hb hc hsame
    rw [find?_register] at hb hc
    split at hb
    · next heq =>
        split at hc
        · next heq' => rw [heq, heq']
        · obtain rfl := Option.some.inj hb
          exact absurd hsame.symm (hnew id' c hc)
    · split at hc
      · obtain rfl := Option.some.inj hc
        exact absurd hsame (hnew id b hb)
      · exact h.own id id' b c hb hc hsame

/-! ## Registries in use -/

/-- The handles that what waits in the queue holds. -/
def queued (r : Registry) : Multiset Handle := heldBy r.outbox.waiting.toList

/-- What holds instances besides the slots of others: the registry itself holds
the plain appearance, and joining sessions hold what they captured. -/
def outside (r : Registry) (out : Multiset Handle) : Multiset Handle :=
  standard ::ₘ (out + r.queued)

/-- The registry's queue is open, its counts agree with all holders, of which its
callers have these handles, and serials tell its instances apart. -/
structure Balanced (r : Registry) (out : Multiset Handle) : Prop where
  isOpen : r.outbox.isOpen = true
  sound : r.Sound (r.outside out)
  numbered : r.Numbered

theorem outside_cons (r : Registry) (a : Handle) (out : Multiset Handle) :
    r.outside (a ::ₘ out) = a ::ₘ r.outside out := by
  rw [outside, outside, Multiset.cons_add, Multiset.cons_swap]

theorem outside_add (r : Registry) (more out : Multiset Handle) :
    r.outside (more + out) = more + r.outside out := by
  rw [outside, outside, Multiset.add_cons, add_assoc]

theorem Balanced.find?_of_mem (h : r.Balanced out) (ha : a ∈ out) : r.find? a.id = some a :=
  h.sound.find?_of_mem
    (Multiset.mem_cons_of_mem (Multiset.mem_add.mpr (Or.inl ha)))

/-- A registry in use has the plain appearance. -/
theorem Balanced.find?_standard (h : r.Balanced out) :
    r.find? standard.id = some standard :=
  h.sound.find?_of_mem (Multiset.mem_cons_self _ _)

/-- Every slot of a registered instance is filled with a lower registered instance. -/
theorem Balanced.exists_part (h : r.Balanced out) (ha : r.find? id = some a) {s : Slot Serial}
    (hs : s ∈ a.slots) :
    ∃ b, s = .filled b ∧ r.find? b.id = some b ∧ b.height < a.height := by
  cases s with
  | pending ref =>
      have hfull := h.sound.full id a ha _ hs
      simp [Slot.isFilled, Slot.appearance?] at hfull
  | filled b =>
      have hb : b ∈ a.parts := List.mem_filterMap.mpr ⟨_, hs, rfl⟩
      exact ⟨b, rfl, h.sound.find?_of_mem_parts ha hb, Canonical.height_lt_of_mem_parts hb⟩

theorem balanced_start (maxDepth : ℕ) : (start maxDepth).Balanced 0 := by
  have hnothing (id : ContentId) : (empty maxDepth).find? id = none := by
    simp [find?, empty]
  have hnumbered : (empty maxDepth).Numbered := by
    constructor <;> simp [hnothing]
  refine ⟨rfl, ?_, hnumbered.register rfl⟩
  have hqueued : (start maxDepth).queued = 0 := rfl
  have hparts : (standard.parts : Multiset Handle) = 0 := by
    rw [standard, Canonical.parts_ofParts]
    rfl
  have hempty : (empty maxDepth).Sound (standard.parts + 0) := by
    rw [hparts, add_zero]
    exact sound_empty maxDepth
  rw [outside, hqueued, add_zero]
  exact hempty.register (hnothing _) (Canonical.id_ofParts ..)
    fun s hs => Canonical.isFilled_of_mem_slots_ofParts hs

end Registry
end AppearanceSync
