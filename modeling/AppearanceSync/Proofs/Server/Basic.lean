import AppearanceSync.Command.Apply
import AppearanceSync.Proofs.Entity
import AppearanceSync.Proofs.Registry.Leaves
import AppearanceSync.Proofs.Scene.Liveness

/-!
# Runs of a server that obeys commands

A server that is driven by commands lets its sprites show appearances without parts only.  What its
registry has is then exactly what somebody holds, without any detour through slots.

Its sprites are rows of a table under the names of entities.  No entity has two rows, and none that
is gone has one, so a command that names an entity by an old name finds nothing.
-/

namespace AppearanceSync

/-! ## Rows of sprites -/

namespace Table

variable {t t' : Table MapSprite} {id : EntityId} {m : MapSprite}

/-- The handles that the sprites of a table hold. -/
def worn (t : Table MapSprite) : Multiset Handle :=
  (t.rows.flatMap fun row => row.2.sprite.handles : List Handle)

theorem worn_of_perm (h : t.rows.Perm ((id, m) :: t'.rows)) :
    t.worn = m.sprite.handles + t'.worn := by
  have hworn := Multiset.coe_eq_coe.mpr (h.flatMap_right fun row => row.2.sprite.handles)
  rw [worn, hworn, List.flatMap_cons, ← Multiset.coe_add]
  rfl

theorem worn_push (t : Table MapSprite) (id : EntityId) (m : MapSprite) :
    (t.push id m).worn = m.sprite.handles + t.worn :=
  worn_of_perm (List.perm_append_singleton (id, m) t.rows)

theorem mem_worn_iff {a : Handle} (h : t.names.Nodup) :
    a ∈ t.worn ↔ ∃ id m, t.find? id = some m ∧ m.sprite.appearance = some a := by
  rw [worn, Multiset.mem_coe, List.mem_flatMap]
  constructor
  · rintro ⟨⟨id, m⟩, hrow, ha⟩
    exact ⟨id, m, (find?_eq_some_iff h).mpr hrow, Option.mem_toList.mp ha⟩
  · rintro ⟨id, m, hm, ha⟩
    exact ⟨(id, m), mem_rows_of_find? hm, Option.mem_toList.mpr ha⟩

end Table

/-- The rows belong to different entities, all of which are there, and each row shows something. -/
structure Inhabits (ids : EntityIds) (t : Table MapSprite) : Prop where
  wellFormed : ids.WellFormed
  nodup : t.names.Nodup
  used : ∀ id ∈ t.names, ids.isUsed id = true
  shown : ∀ row ∈ t.rows, ∃ a, row.2.sprite.appearance = some a

section Inhabits

variable {ids : EntityIds} {t : Table MapSprite} {id : EntityId} {m : MapSprite} {a : Handle}

theorem inhabits_empty : Inhabits .empty .empty where
  wellFormed := EntityIds.wellFormed_empty
  nodup := List.nodup_nil
  used _ h := absurd h List.not_mem_nil
  shown _ h := absurd h List.not_mem_nil

theorem Inhabits.find?_of_unused (h : Inhabits ids t) (hid : ids.isUsed id = false) :
    t.find? id = none := by
  refine Option.eq_none_iff_forall_ne_some.mpr fun m hm => ?_
  have hused := h.used id (List.mem_map_of_mem (Table.mem_rows_of_find? hm))
  rw [hid] at hused
  cases hused

/-- An entity comes to be without a row. -/
theorem Inhabits.take (h : Inhabits ids t) (hroom : ids.hasRoom = true) :
    Inhabits ids.take.1 t where
  wellFormed := h.wellFormed.take hroom
  nodup := h.nodup
  used id hid := ((h.wellFormed.isUsed_take hroom).2 id).mpr (Or.inl (h.used id hid))
  shown := h.shown

/-- An entity comes to be with a row. -/
theorem Inhabits.push (h : Inhabits ids t) (hroom : ids.hasRoom = true)
    (ha : m.sprite.appearance = some a) : Inhabits ids.take.1 (t.push ids.take.2 m) := by
  obtain ⟨hnew, hused⟩ := h.wellFormed.isUsed_take hroom
  have hnames : (t.push ids.take.2 m).names.Perm (ids.take.2 :: t.names) :=
    (List.perm_append_singleton (ids.take.2, m) t.rows).map Prod.fst
  refine ⟨h.wellFormed.take hroom, ?_, fun id hid => ?_, fun row hrow => ?_⟩
  · rw [hnames.nodup_iff, List.nodup_cons]
    refine ⟨fun hmem => ?_, h.nodup⟩
    rw [h.used _ hmem] at hnew
    cases hnew
  · rw [hused]
    rcases List.mem_cons.mp (hnames.mem_iff.mp hid) with rfl | hid
    · exact Or.inr rfl
    · exact Or.inl (h.used id hid)
  · rcases List.mem_append.mp hrow with hrow | hrow
    · exact h.shown row hrow
    · obtain rfl := List.mem_singleton.mp hrow
      exact ⟨a, ha⟩

/-- A row is changed. -/
theorem Inhabits.modify (h : Inhabits ids t) (hm : t.find? id = some m)
    (change : MapSprite → MapSprite) (ha : (change m).sprite.appearance = some a) :
    Inhabits ids (t.modify id change) where
  wellFormed := h.wellFormed
  nodup := by
    rw [t.names_modify id change]
    exact h.nodup
  used other hother := by
    rw [t.names_modify id change] at hother
    exact h.used other hother
  shown row hrow := by
    rcases List.mem_cons.mp ((Table.perm_modify h.nodup hm change).mem_iff.mp hrow) with rfl | hrow
    · exact ⟨a, ha⟩
    · exact h.shown row ((Table.perm_erase hm).mem_iff.mpr (List.mem_cons_of_mem _ hrow))

/-- An entity goes away with its row, if it has one. -/
theorem Inhabits.giveBack (h : Inhabits ids t) (hused : ids.isUsed id = true) :
    Inhabits (ids.giveBack id).1 (t.erase id) := by
  have hgone := EntityIds.isUsed_giveBack hused
  cases hm : t.find? id with
  | some m =>
      have hperm := Table.perm_erase hm
      obtain ⟨hnew, hnodup⟩ := List.nodup_cons.mp ((hperm.map Prod.fst).nodup_iff.mp h.nodup)
      refine ⟨h.wellFormed.giveBack id, hnodup, fun other hother => ?_, fun row hrow => ?_⟩
      · rw [hgone]
        refine ⟨h.used other ?_, ?_⟩
        · exact (hperm.map Prod.fst).mem_iff.mpr (List.mem_cons_of_mem _ hother)
        · rintro rfl
          exact hnew hother
      · exact h.shown row (hperm.mem_iff.mpr (List.mem_cons_of_mem _ hrow))
  | none =>
      rw [Table.erase_of_find?_eq_none hm]
      refine ⟨h.wellFormed.giveBack id, h.nodup, fun other hother => ?_, h.shown⟩
      rw [hgone]
      refine ⟨h.used other hother, ?_⟩
      rintro rfl
      obtain ⟨row, hrow, rfl⟩ := List.mem_map.mp hother
      have hfound : t.find? row.1 = some row.2 := (Table.find?_eq_some_iff h.nodup).mpr hrow
      rw [hm] at hfound
      cases hfound

end Inhabits

namespace Server

/-! ## Runs -/

/-- What can happen to a server. -/
inductive Input
  | command (c : Command)
  | tick
  /-- A viewer comes to the map, unless no name is left for it. -/
  | viewer (v : Viewer)
  /-- What is registered is captured in ascending order of the rank of its id. -/
  | connect (rank : ContentId → ℕ)
  | disconnect (session : SessionId)
  /-- The client closes its inbox. -/
  | close (session : SessionId)
  | receive (session : SessionId)

/-- The server after an input. -/
def step (s : Server) : Input → Server
  | .command c => s.apply c
  | .tick => s.update
  | .viewer v => if s.ids.hasRoom then (s.addViewer v).1 else s
  | .connect rank =>
    let captured := s.registry.live.mergeSort fun a b => rank a.id ≤ rank b.id
    let (broadcaster, registry, _) := s.broadcaster.connectWith s.registry captured
    { s with broadcaster, registry }
  | .disconnect session => { s with broadcaster := s.broadcaster.disconnect session }
  | .close session => { s with broadcaster := s.broadcaster.close session }
  | .receive session => (s.receive session).1

/-- The server after inputs in order. -/
def run (c : Config) (inputs : List Input) : Server := inputs.foldl step (start c)

/-- Sprites belong to entities that are there, the registry counts what they hold, and nothing has
parts. -/
structure Tidy (s : Server) : Prop where
  rows : Inhabits s.ids s.sprites
  balanced : s.registry.Balanced s.sprites.worn
  shallow : s.registry.Shallow

variable {s : Server} {e : EntityId} {a : Handle}

theorem tidy_start (c : Config) : (start c).Tidy where
  rows := inhabits_empty
  balanced := Registry.balanced_start c.maxOverlayDepth
  shallow := Registry.shallow_start c.maxOverlayDepth

/-- The entity is there, and its sprite shows the appearance. -/
def Shows (s : Server) (e : EntityId) (a : Handle) : Prop :=
  s.ids.isUsed e = true ∧ ∃ m, s.sprites.find? e = some m ∧ m.sprite.appearance = some a

theorem Tidy.shows_iff (h : s.Tidy) :
    s.Shows e a ↔ ∃ m, s.sprites.find? e = some m ∧ m.sprite.appearance = some a := by
  refine ⟨And.right, fun hshown => ⟨?_, hshown⟩⟩
  obtain ⟨m, hm, -⟩ := hshown
  exact h.rows.used e (List.mem_map_of_mem (Table.mem_rows_of_find? hm))

/-- What is held is the plain appearance, what sprites show, and what was captured for a session
and waits in the queue. -/
theorem Tidy.mem_outside_iff (h : s.Tidy) :
    a ∈ s.registry.outside s.sprites.worn ↔
      a = Registry.standard ∨ (∃ e, s.Shows e a) ∨ a ∈ s.registry.queued := by
  rw [Registry.outside, Multiset.mem_cons, Multiset.mem_add, Table.mem_worn_iff h.rows.nodup]
  simp only [h.shows_iff]

/-- What is registered is what is held, since nothing is held by a slot. -/
theorem Tidy.contains_iff (h : s.Tidy) (id : ContentId) :
    s.registry.contains id = true ↔
      ∃ a ∈ s.registry.outside s.sprites.worn, a.id = id := by
  rw [Registry.contains_eq_isSome_find?, Option.isSome_iff_exists]
  constructor
  · rintro ⟨a, ha⟩
    refine ⟨a, ?_, h.balanced.sound.named id a ha⟩
    rcases h.balanced.sound.exists_holder ha with hout | ⟨b, hb, hpart⟩
    · exact hout
    · rw [(h.shallow b.id b hb).parts_eq] at hpart
      exact absurd hpart List.not_mem_nil
  · rintro ⟨a, ha, rfl⟩
    exact ⟨a, h.balanced.sound.find?_of_mem ha⟩

/-- When nothing waits, nothing is registered but the plain appearance and what sprites show. -/
theorem Tidy.contains_iff_of_waiting (h : s.Tidy) (hwaiting : s.registry.outbox.waiting = #[])
    (id : ContentId) :
    s.registry.contains id = true ↔
      id = Registry.standard.id ∨ ∃ e a, s.Shows e a ∧ a.id = id := by
  have hqueued (a : Handle) : a ∉ s.registry.queued := by
    rw [Registry.queued, hwaiting]
    exact Multiset.notMem_zero a
  rw [h.contains_iff]
  simp only [h.mem_outside_iff, hqueued, or_false]
  constructor
  · rintro ⟨a, rfl | ⟨e, hshows⟩, rfl⟩
    · exact Or.inl rfl
    · exact Or.inr ⟨e, a, hshows, rfl⟩
  · rintro (rfl | ⟨e, a, hshows, rfl⟩)
    · exact ⟨Registry.standard, Or.inl rfl, rfl⟩
    · exact ⟨a, Or.inr ⟨e, hshows⟩, rfl⟩

/-! ## Turns -/

theorem registry_update (s : Server) :
    s.update.registry = s.registry.afterRound.afterRound := by
  rw [update, count, flush]
  exact congrArg (fun f => f.2.1) (Hub.flush_eq s.broadcaster s.registry)

theorem shallow_afterRound {r : Registry} {out : Multiset Handle} (hr : r.Balanced out)
    (h : r.Shallow) : r.afterRound.Shallow := by
  have htaken : r.takeAll.Shallow := h.of_find?_eq rfl
  exact htaken.releaseAll hr.takeAll

theorem Tidy.update (h : s.Tidy) : s.update.Tidy := by
  have hfirst := Hub.balanced_afterRound h.balanced
  refine ⟨h.rows, ?_, ?_⟩
  · rw [registry_update]
    exact Hub.balanced_afterRound hfirst
  · rw [registry_update]
    exact shallow_afterRound hfirst (shallow_afterRound h.balanced h.shallow)

/-- After a turn nothing waits in the queue. -/
theorem Tidy.waiting_update (h : s.Tidy) : s.update.registry.outbox.waiting = #[] := by
  have hfirst := Hub.balanced_afterRound h.balanced
  rw [registry_update, ← Array.toList_inj, Hub.waiting_afterRound hfirst,
    Hub.roundJournal_afterRound h.balanced]
  rfl

/-! ## Sessions and viewers -/

theorem Tidy.connect (h : s.Tidy) (rank : ContentId → ℕ) : (s.step (.connect rank)).Tidy := by
  let captured := s.registry.live.mergeSort fun a b => rank a.id ≤ rank b.id
  have hcaptured : (captured : Multiset Handle) = s.registry.live :=
    Multiset.coe_eq_coe.mpr (List.mergeSort_perm _ _)
  have hcourse :=
    Registry.join_course s.registry s.broadcaster.nextId captured _ h.balanced hcaptured
  have hfind : (s.registry.joinWith s.broadcaster.nextId captured).find? = s.registry.find? := by
    rw [Registry.joinWith, if_pos h.balanced.isOpen]
    exact (funext (Registry.find?_announce _ _)).trans (Registry.find?_foldl_retain _ _)
  exact ⟨h.rows, hcourse.balanced h.balanced, h.shallow.of_find?_eq hfind⟩

/-- The server itself captures in ascending order of the ids. -/
theorem Tidy.connect_eq (h : s.Tidy) :
    s.connect.1 = s.step (.connect fun id => id.hash.toNat) := by
  rw [Server.connect, Broadcaster.connect, step]
  simp only [h.balanced.sound.named.mergeSort_live]

theorem Tidy.viewer (h : s.Tidy) (v : Viewer) : (s.step (.viewer v)).Tidy := by
  rw [step]
  split
  · next hroom => exact ⟨h.rows.take hroom, h.balanced, h.shallow⟩
  · exact h

end Server
end AppearanceSync
