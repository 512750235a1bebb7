import AppearanceSync.Proofs.Registry.Chronicle
import Mathlib.Data.List.Perm.Basic

/-!
# Tables as permutations

A table is determined by its entries in any order, so the table of captured
instances does not depend on the order in which they were captured.
-/

namespace AppearanceSync

namespace Snapshot

variable {id : ContentId} {state : WireState} {entries : List (ContentId × WireState)}
  {s t : Snapshot}

theorem insertEntry_perm (hnew : ∀ e ∈ entries, e.1 ≠ id) :
    (insertEntry id state entries).Perm ((id, state) :: entries) := by
  induction entries with
  | nil => exact .refl _
  | cons e entries ih =>
      rw [insertEntry]
      split
      · exact .refl _
      · next hnotbefore =>
          split
          · exact ((ih fun f hf => hnew f (by simp [hf])).cons e).trans (.swap ..)
          · next hnotafter =>
              -- neither is smaller, so the hashes are equal
              have heq : e.1.hash = id.hash :=
                UInt64.le_antisymm (UInt64.not_lt.mp hnotbefore) (UInt64.not_lt.mp hnotafter)
              refine absurd ?_ (hnew e (by simp))
              cases h : e.1
              cases h' : id
              simp_all

theorem foldl_insert_perm (hdistinct : entries.Pairwise fun a b => a.1 ≠ b.1)
    (hnew : ∀ e ∈ entries, ∀ f ∈ s.entries, f.1 ≠ e.1) :
    (entries.foldl (fun s e => s.insert e.1 e.2) s).entries.Perm (entries ++ s.entries) := by
  induction entries generalizing s with
  | nil => exact .refl _
  | cons e entries ih =>
      obtain ⟨he, hrest⟩ := List.pairwise_cons.mp hdistinct
      have hinsert : (s.insert e.1 e.2).entries.Perm (e :: s.entries) :=
        insertEntry_perm (hnew e (by simp))
      refine (ih hrest ?_).trans ?_
      · intro f hf g hg
        rcases List.mem_cons.mp (hinsert.mem_iff.mp hg) with rfl | hg
        · exact he f hf
        · exact hnew f (by simp [hf]) g hg
      · exact (hinsert.append_left entries).trans List.perm_middle

/-- A table of distinct ids has the entries that it was made of. -/
theorem ofList_perm (hdistinct : entries.Pairwise fun a b => a.1 ≠ b.1) :
    (ofList entries).entries.Perm entries := by
  have hempty : ∀ e ∈ entries, ∀ f ∈ empty.entries, f.1 ≠ e.1 :=
    fun e _ f hf => absurd hf List.not_mem_nil
  exact (foldl_insert_perm hdistinct hempty).trans (.of_eq (List.append_nil _))

theorem eq_of_perm (h : s.entries.Perm t.entries) : s = t := by
  have heq : s.entries = t.entries := by
    refine h.eq_of_pairwise ?_ s.ascending t.ascending
    intro a b _ _ hab hba
    exact absurd hab (UInt64.not_lt.mpr (UInt64.le_of_lt hba))
  cases s
  cases t
  simp_all

theorem pairwise_ne (s : Snapshot) : s.entries.Pairwise fun a b => a.1 ≠ b.1 := by
  refine s.ascending.imp ?_
  intro a b hlt heq
  rw [heq] at hlt
  exact UInt64.lt_irrefl _ hlt

/-- The ledger of a table has exactly its entries. -/
theorem lookup_eq_some_iff (hdistinct : entries.Pairwise fun a b => a.1 ≠ b.1) :
    entries.lookup id = some state ↔ (id, state) ∈ entries := by
  induction entries with
  | nil => simp
  | cons e entries ih =>
      obtain ⟨he, hrest⟩ := List.pairwise_cons.mp hdistinct
      rw [List.lookup_cons, List.mem_cons]
      by_cases hid : id = e.1
      · subst hid
        simp only [BEq.rfl, Option.some.injEq]
        constructor
        · rintro rfl
          exact Or.inl rfl
        · rintro (heq | hmem)
          · rw [← heq]
          · exact absurd rfl (he (e.1, state) hmem)
      · have hbeq : (id == e.1) = false := by simpa using hid
        rw [hbeq, ih hrest]
        constructor
        · exact Or.inr
        · rintro (rfl | hmem)
          · exact absurd rfl hid
          · exact hmem

end Snapshot

namespace Registry

variable {r r' : Registry} {held : List Handle}

theorem pairwise_id_of_perm_live (hr : r.Named) (h : held.Perm r.live) :
    (held.map fun a => (a.id, a.toState)).Pairwise fun a b => a.1 ≠ b.1 := by
  rw [List.pairwise_map]
  exact hr.pairwise_live.perm h.symm Ne.symm

theorem tableOf_perm (hr : r.Named) (h : held.Perm r.live) :
    (tableOf held).entries.Perm (held.map fun a => (a.id, a.toState)) :=
  Snapshot.ofList_perm (pairwise_id_of_perm_live hr h)

/-- The order in which instances are captured does not matter. -/
theorem tableOf_eq_snapshot (hr : r.Named) (h : (held : Multiset Handle) = r.live) :
    tableOf held = r.snapshot := by
  have hperm := Multiset.coe_eq_coe.mp h
  refine Snapshot.eq_of_perm ?_
  exact ((tableOf_perm hr hperm).trans (hperm.map _)).trans (tableOf_perm hr (.refl _)).symm

/-- The table of everything that is registered is the registry's ledger. -/
theorem ofTable_snapshot (hr : r.Named) : Ledger.ofTable r.snapshot = r.ledger := by
  funext id
  apply Option.ext
  intro state
  have hperm := tableOf_perm hr (.refl _)
  rw [Ledger.ofTable, Snapshot.lookup_eq_some_iff r.snapshot.pairwise_ne,
    snapshot, hperm.mem_iff, List.mem_map, ledger, Option.map_eq_some_iff]
  constructor
  · rintro ⟨a, ha, heq⟩
    obtain ⟨rfl, rfl⟩ := Prod.mk.inj heq
    exact ⟨a, hr.mem_live_iff.mp ha, rfl⟩
  · rintro ⟨a, ha, rfl⟩
    exact ⟨a, mem_live_iff.mpr ⟨id, ha⟩, by rw [hr id a ha]⟩

/-- Registries with the same lookups have the same table. -/
theorem snapshot_eq_of_find?_eq (hr : r.Named) (h : r'.find? = r.find?) :
    r'.snapshot = r.snapshot :=
  tableOf_eq_snapshot hr (live_eq_of_find?_eq hr h)

end Registry
end AppearanceSync
