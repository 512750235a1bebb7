import AppearanceSync.Proofs.Replica.Bindings

/-!
# A table replaces what is known

A table takes the place of all that a replica knew, whatever that was and however it came
about.  Entries under a wrong name count for nothing.  The others are stored, all of them,
before the first of their slots is filled, and so each slot finds the instance that was stored
for it.  What waited before goes on waiting, or runs once every slot has been filled.
-/

namespace AppearanceSync

namespace Snapshot

/-- The entries that are sent under the hash of their state. -/
def honest (table : Snapshot) : List (ContentId × WireState) :=
  table.entries.filter fun e => e.2.contentId = e.1

theorem named_honest (table : Snapshot) : ∀ e ∈ table.honest, e.2.contentId = e.1 := by
  intro e he
  simpa using (List.mem_filter.mp he).2

theorem ascending_honest (table : Snapshot) :
    table.honest.Pairwise fun a b => a.1.hash < b.1.hash :=
  table.ascending.sublist List.filter_sublist

theorem pairwise_honest (table : Snapshot) : table.honest.Pairwise fun a b => a.1 ≠ b.1 :=
  table.ascending_honest.imp ContentId.ne_of_hash_lt

end Snapshot

/-- What happens to a replica, or what is done to it in the meantime. -/
inductive Operation
  | step (s : Step)
  /-- The changes of icons that have come up are taken. -/
  | takeUpdates
  | takeNotices
  /-- The icon of a turf is changed by who asked for it. -/
  | setTurf (turf : TurfId) (icon : Icon Serial)

namespace Replica

variable {c : Replica} {id : ContentId} {n : Serial} {K : Ledger}
  {entries : List (ContentId × WireState)}

/-! ## Storing -/

/-- Entries under a wrong name are passed over. -/
theorem storeAll_filter (c : Replica) (entries : List (ContentId × WireState)) :
    c.storeAll (entries.filter fun e => e.2.contentId = e.1) = c.storeAll entries := by
  induction entries generalizing c with
  | nil => rfl
  | cons entry entries ih =>
      obtain ⟨id, state⟩ := entry
      by_cases hname : state.contentId = id
      · rw [List.filter_cons_of_pos (by simpa using hname), storeAll_cons_of_named hname,
          storeAll_cons_of_named hname, ih]
      · rw [List.filter_cons_of_neg (by simpa using hname), storeAll_cons_of_misnamed hname, ih]

/-- Entries under their own names are all stored, in their order. -/
theorem map_fst_storeAll (c : Replica) (hnamed : ∀ e ∈ entries, e.2.contentId = e.1) :
    (c.storeAll entries).2.map Prod.fst = entries.map Prod.fst := by
  induction entries generalizing c with
  | nil => rfl
  | cons entry entries ih =>
      obtain ⟨id, state⟩ := entry
      rw [storeAll_cons_of_named (hnamed (id, state) List.mem_cons_self)]
      exact congrArg (id :: ·) (ih _ fun e he => hnamed e (List.mem_cons_of_mem _ he))

theorem copies_storeAll (hnone : ∀ id : ContentId, c.copies[id]? = none)
    (entries : List (ContentId × WireState)) (id : ContentId) :
    (c.storeAll entries).1.copies[id]? = none := by
  induction entries generalizing c with
  | nil => exact hnone id
  | cons entry entries ih =>
      obtain ⟨other, state⟩ := entry
      by_cases hname : state.contentId = other
      · rw [storeAll_cons_of_named hname]
        refine ih (c := c.keep other state) fun id => ?_
        simp only [keep, Std.TreeMap.getElem?_erase, hnone, ite_self]
      · rw [storeAll_cons_of_misnamed hname]
        exact ih hnone

theorem copies_linkEach (c : Replica) (stored : List (ContentId × Serial)) :
    (c.linkEach stored).copies = c.copies := by
  induction stored generalizing c with
  | nil => rfl
  | cons s stored ih => exact (ih (c.link s.2)).trans (copies_link c s.2)

theorem copies_drainEach (c : Replica) (stored : List (ContentId × Serial)) :
    (c.drainEach stored).copies = c.copies := by
  induction stored generalizing c with
  | nil => rfl
  | cons s stored ih => exact (ih (c.drain s.1 s.2)).trans (copies_drain c s.1 s.2)

/-! ## What waits -/

/-- Only slots of the instances that are linked begin to wait. -/
theorem exists_waitingFor_linkEach (c : Replica) (stored : List (ContentId × Serial))
    (id : ContentId) :
    ∃ links, (c.linkEach stored).waitingFor id = c.waitingFor id ++ links ∧
      ∀ callback ∈ links, ∃ s ∈ stored, ∃ k, callback = .link s.2 k := by
  induction stored generalizing c with
  | nil => exact ⟨[], (List.append_nil _).symm, by simp⟩
  | cons s stored ih =>
      obtain ⟨links, hwaiting, hlinks⟩ := ih (c.link s.2)
      have hlinked := c.waitingFor_linkAll s.2 (c.emptySlotsOf s.2) id
      rw [← link_eq] at hlinked
      rw [hlinked, List.append_assoc] at hwaiting
      refine ⟨_, hwaiting, fun callback hcallback => ?_⟩
      obtain hfirst | hlater := List.mem_append.mp hcallback
      · obtain ⟨slot, -, rfl⟩ := List.mem_map.mp hfirst
        exact ⟨s, List.mem_cons_self, slot.2, rfl⟩
      · obtain ⟨t, ht, k, hk⟩ := hlinks callback hlater
        exact ⟨t, List.mem_cons_of_mem _ ht, k, hk⟩

theorem waitingFor_linkEach_of_known (stored : List (ContentId × Serial))
    (hknown : (c.find? id).isSome) : (c.linkEach stored).waitingFor id = c.waitingFor id := by
  induction stored generalizing c with
  | nil => rfl
  | cons s stored ih =>
      have hlater : ((c.link s.2).find? id).isSome := by rwa [find?_link]
      exact (ih hlater).trans (waitingFor_link_of_known hknown)

/-! ## Links -/

/-- A slot of what is known under an id: the slot's own id, and the id of what fills it. -/
def linkAt (c : Replica) (id : ContentId) (k : ℕ) : Option (ContentId × Option ContentId) :=
  ((c.find? id).bind fun n => c.arena.slotAt? n k).map fun s => (s.1, s.2.bind c.arena.id?)

/-- A slot of a known instance has what is known under its id. -/
theorem Tracks.target_eq (h : c.Tracks K) (hfound : c.find? id = some n) {k : ℕ}
    {ref : ContentId} {target : Option Serial}
    (hslot : c.arena.slotAt? n k = some (ref, target)) : target = c.find? ref := by
  cases target with
  | none => exact (h.settling.linked n k ref hslot).symm
  | some m => exact (h.current id n hfound k ref m hslot).symm

/-- The slots of a known instance are those of its state, with what is known under their ids. -/
theorem Tracks.slotAt?_eq {state : WireState} (h : c.Tracks K) (hfound : c.find? id = some n)
    (hstate : c.arena.state? n = some state) (k : ℕ) :
    c.arena.slotAt? n k = state.references[k]?.map fun ref => (ref, c.find? ref) := by
  obtain ⟨i, hi, rfl⟩ := Option.map_eq_some_iff.mp hstate
  have hslot : c.arena.slotAt? n k = i.slots[k]? := by
    rw [Arena.slotAt?, hi]
    rfl
  rw [← h.settling.shaped n i hi, List.getElem?_map, Option.map_map, ← hslot]
  cases hk : c.arena.slotAt? n k with
  | none => rfl
  | some s =>
      obtain ⟨ref, target⟩ := s
      obtain rfl := h.target_eq hfound hk
      rfl

/-- The links of a replica follow from the ledger that it tracks. -/
theorem Tracks.linkAt_eq (h : c.Tracks K) (id : ContentId) (k : ℕ) :
    c.linkAt id k =
      (K id).bind fun state => state.references[k]?.map fun ref =>
        (ref, (K ref).map fun _ => ref) := by
  have hledger (id : ContentId) : (c.find? id).bind c.arena.state? = K id := by
    rw [← h.ledger]
    rfl
  have hname (ref : ContentId) : (c.find? ref).bind c.arena.id? = (K ref).map fun _ => ref := by
    rw [← hledger]
    cases hfound : c.find? ref with
    | none => rfl
    | some m =>
        have hm := h.settling.named ref m hfound
        obtain ⟨state, hstate, -⟩ := Option.map_eq_some_iff.mp hm
        rw [Option.bind_some, Option.bind_some, hm, hstate]
        rfl
  rw [linkAt, ← hledger]
  cases hfound : c.find? id with
  | none => rfl
  | some n =>
      obtain ⟨state, hstate, -⟩ := Option.map_eq_some_iff.mp (h.settling.named id n hfound)
      rw [Option.bind_some, Option.bind_some, hstate, h.slotAt?_eq hfound hstate, Option.bind_some,
        Option.map_map]
      congr 1
      funext ref
      exact congrArg (ref, ·) (hname ref)

end Replica

namespace Watched

variable {w : Watched} {id : ContentId} {n : Serial} {stored : List (ContentId × Serial)}

/-- The watched replica after an operation. -/
def operate (w : Watched) : Operation → Watched
  | .step s => w.step s
  | .takeUpdates => { w with replica := w.replica.takeUpdates.1 }
  | .takeNotices => { w with replica := w.replica.takeNotices.1 }
  | .setTurf turf icon => { w with replica := w.replica.setTurf turf icon }

/-- What has become of a new replica after these operations. -/
def reached (tileSize : ℕ) (operations : List Operation) : Watched :=
  operations.foldl operate (start tileSize)

theorem settling_operate (h : w.replica.Settling [] []) (o : Operation) :
    (w.operate o).replica.Settling [] [] := by
  cases o with
  | step s =>
      rw [operate, replica_step]
      exact h.step s
  | takeUpdates => exact h.of_eq rfl rfl rfl rfl
  | takeNotices => exact h.of_eq rfl rfl rfl rfl
  | setTurf turf icon => exact h.of_eq rfl rfl rfl rfl

theorem settling_reached (tileSize : ℕ) (operations : List Operation) :
    (reached tileSize operations).replica.Settling [] [] := by
  induction operations using List.reverseRecOn with
  | nil => exact Replica.settling_empty tileSize
  | append_singleton operations o ih =>
      rw [reached, List.foldl_append]
      exact settling_operate ih o

/-! ## What is run -/

/-- All that waited for these ids is run, one id after the other, while no slot is emptied. -/
theorem exists_runs_drainEach (hids : ∀ s ∈ stored, w.replica.arena.id? s.2 = some s.1)
    (hdistinct : stored.Pairwise fun s t => s.1 ≠ t.1) :
    ∃ more, w.Reports (w.drainEach stored) more ∧
      more.map (fun r => (r.id, r.callback)) =
        stored.flatMap (fun s => (w.replica.waitingFor s.1).map fun callback => (s.1, callback)) ∧
      ∀ r ∈ more, (r.id, r.appearance) ∈ stored ∧ w.replica.Fills r.moment := by
  induction stored generalizing w with
  | nil => exact ⟨[], reports_of_eq rfl rfl rfl, rfl, by simp⟩
  | cons s stored ih =>
      obtain ⟨hs, hrest⟩ := List.pairwise_cons.mp hdistinct
      have hids' : ∀ t ∈ stored, (w.drain s.1 s.2).replica.arena.id? t.2 = some t.1 := by
        intro t ht
        rw [replica_drain, Replica.id?_drain]
        exact hids t (List.mem_cons_of_mem s ht)
      obtain ⟨now, hnow, hcallbacks, hmoments⟩ := exists_runs_drain (hids s List.mem_cons_self)
      obtain ⟨more, hmore, hrecord, hlater⟩ := ih hids' hrest
      refine ⟨now ++ more, hnow.trans hmore, ?_, ?_⟩
      · -- what waits for the other ids is not touched
        have hothers : stored.flatMap (fun t =>
            ((w.drain s.1 s.2).replica.waitingFor t.1).map fun callback => (t.1, callback)) =
            stored.flatMap fun t =>
              (w.replica.waitingFor t.1).map fun callback => (t.1, callback) := by
          refine List.flatMap_congr fun t ht => ?_
          rw [replica_drain, Replica.waitingFor_drain, if_neg (Ne.symm (hs t ht))]
        have hhead : now.map (fun r => (r.id, r.callback)) =
            (w.replica.waitingFor s.1).map fun callback => (s.1, callback) := by
          rw [← hcallbacks, List.map_map]
          refine List.map_congr_left fun r hr => ?_
          rw [(hmoments r hr).1]
          rfl
        rw [List.map_append, hhead, hrecord, hothers, List.flatMap_cons]
      · intro r hr
        obtain hr | hr := List.mem_append.mp hr
        · obtain ⟨hid, happearance, hfills⟩ := hmoments r hr
          rw [hid, happearance]
          exact ⟨List.mem_cons_self, hfills⟩
        · obtain ⟨hmem, hfills⟩ := hlater r hr
          rw [replica_drain] at hfills
          exact ⟨List.mem_cons_of_mem s hmem, (w.replica.fills_drain s.1 s.2).trans hfills⟩

/-! ## Tables -/

/-- The second watched replica is the first after a table. -/
structure Replaced (w w' : Watched) (table : Snapshot) : Prop where
  /-- What is known now are the entries that are sent under their own names. -/
  known : ∀ id, (w'.replica.find? id).isSome ↔ ∃ state, (id, state) ∈ table.honest
  /-- Each is a new instance of its entry, with what is known now in its slots. -/
  linked : ∀ id n, w'.replica.find? id = some n → w.replica.arena.next ≤ n ∧
    ∃ state, (id, state) ∈ table.honest ∧ w'.replica.arena.state? n = some state ∧
      ∀ k, w'.replica.arena.slotAt? n k =
        state.references[k]?.map fun ref => (ref, w'.replica.find? ref)
  copies : ∀ id : ContentId, w'.replica.copies[id]? = none
  ascending : table.honest.Pairwise fun a b => a.1.hash < b.1.hash
  /-- What waited for these ids was run in the order of the entries, when all slots had been
  filled.  What was added to the changes of icons and to the notices is what these runs gave. -/
  served : ∃ more, w'.ran = w.ran ++ more ∧
    w'.replica.updates = w.replica.updates ++ more.filterMap Run.update? ∧
    w'.replica.notices = w.replica.notices ++ more.filterMap Run.notice? ∧
    more.map (fun r => (r.id, r.callback)) =
      table.honest.flatMap (fun e =>
        (w.replica.waitingFor e.1).map fun callback => (e.1, callback)) ∧
    ∀ r ∈ more, w'.replica.find? r.id = some r.appearance ∧
      r.moment.find? = w'.replica.find? ∧
      ∀ id n, w'.replica.find? id = some n → r.moment.Linked n
  /-- Nothing waits for what is known. -/
  awaited : ∀ id, (w'.replica.find? id).isSome → w'.replica.waitingFor id = []
  /-- What waited for other ids still does, and with it only empty slots of what is known. -/
  waiting : ∀ id, w'.replica.find? id = none →
    ∃ links, w'.replica.waitingFor id = w.replica.waitingFor id ++ links ∧
      ∀ callback ∈ links, ∃ other n k, w'.replica.find? other = some n ∧
        callback = .link n k ∧ w'.replica.arena.slotAt? n k = some (id, none)

/-- The instances that are stored for a table. -/
def storedFor (w : Watched) (table : Snapshot) : List (ContentId × Serial) :=
  (w.replica.forgetAll.storeAll table.honest).2

/-- The watched replica after the instances of a table have been stored and linked. -/
def linkedFor (w : Watched) (table : Snapshot) : Watched :=
  ({ w with replica := (w.replica.forgetAll.storeAll table.honest).1 } : Watched).linkEach
    (w.storedFor table)

theorem applySnapshot_eq (w : Watched) (table : Snapshot) :
    w.applySnapshot table = (w.linkedFor table).drainEach (w.storedFor table) := by
  rw [linkedFor, storedFor, Snapshot.honest, Replica.storeAll_filter]
  rfl

theorem replica_linkedFor (w : Watched) (table : Snapshot) :
    (w.linkedFor table).replica =
      (w.replica.forgetAll.storeAll table.honest).1.linkEach (w.storedFor table) :=
  replica_linkEach _ _

theorem map_fst_storedFor (w : Watched) (table : Snapshot) :
    (w.storedFor table).map Prod.fst = table.honest.map Prod.fst :=
  w.replica.forgetAll.map_fst_storeAll table.named_honest

theorem find?_applySnapshot (w : Watched) (table : Snapshot) (id : ContentId) :
    (w.applySnapshot table).replica.find? id = (w.linkedFor table).replica.find? id := by
  rw [applySnapshot_eq, replica_drainEach, Replica.find?_drainEach]

/-- What is known after a table is what has been stored for it. -/
theorem find?_linkedFor_eq_some_iff (w : Watched) (table : Snapshot) :
    (w.linkedFor table).replica.find? id = some n ↔ (id, n) ∈ w.storedFor table := by
  have hstored := (Replica.find?_storeAll (c := w.replica.forgetAll) table.pairwise_honest).2
  rw [replica_linkedFor, Replica.find?_linkEach]
  constructor
  · intro hfound
    have hmem : id ∈ (w.storedFor table).map Prod.fst := by
      by_contra hnot
      rw [Replica.find?_storeAll_of_not_mem _ _ hnot, Replica.find?_forgetAll] at hfound
      cases hfound
    obtain ⟨s, hs, rfl⟩ := List.mem_map.mp hmem
    obtain rfl := Option.some.inj ((hstored s hs).symm.trans hfound)
    exact hs
  · exact fun hs => hstored (id, n) hs

theorem waitingFor_storeAll_honest (w : Watched) (table : Snapshot) (id : ContentId) :
    (w.replica.forgetAll.storeAll table.honest).1.waitingFor id = w.replica.waitingFor id :=
  Replica.waitingFor_of_waiting (w.replica.forgetAll.waiting_storeAll table.honest) id

/-- What waited before the table was stored waits once its slots have been linked, and with it
only slots of what was stored. -/
theorem exists_waitingFor_linkedFor (w : Watched) (table : Snapshot) (id : ContentId) :
    ∃ links, (w.linkedFor table).replica.waitingFor id = w.replica.waitingFor id ++ links ∧
      ∀ callback ∈ links, ∃ s ∈ w.storedFor table, ∃ k, callback = .link s.2 k := by
  rw [replica_linkedFor, ← waitingFor_storeAll_honest]
  exact Replica.exists_waitingFor_linkEach _ _ id

theorem waitingFor_linkedFor_of_mem (w : Watched) (table : Snapshot) {s : ContentId × Serial}
    (hs : s ∈ w.storedFor table) :
    (w.linkedFor table).replica.waitingFor s.1 = w.replica.waitingFor s.1 := by
  have hknown := (w.find?_linkedFor_eq_some_iff table).mpr hs
  rw [replica_linkedFor, Replica.find?_linkEach] at hknown
  rw [replica_linkedFor, Replica.waitingFor_linkEach_of_known _ (by simp [hknown])]
  exact w.waitingFor_storeAll_honest table s.1

theorem linked_linkedFor (w : Watched) (table : Snapshot) :
    ∀ s ∈ w.storedFor table, (w.linkedFor table).replica.Linked s.2 := by
  rw [replica_linkedFor]
  exact Replica.linked_linkEach _

/-- After a table a replica tracks the entries that are sent under their own names. -/
theorem tracks_applySnapshot (h : w.replica.Settling [] []) (table : Snapshot) :
    (w.applySnapshot table).replica.Tracks fun id => table.honest.lookup id := by
  have htracks := h.tracks_applyEntries table.pairwise_honest table.named_honest
  rw [Replica.applyEntries_eq] at htracks
  rw [applySnapshot_eq, replica_drainEach, replica_linkedFor]
  exact htracks

/-- All that waited for the entries is run when the slots of all of them have been filled. -/
theorem exists_runs_applySnapshot (w : Watched) (table : Snapshot) :
    ∃ more, w.Reports (w.applySnapshot table) more ∧
      more.map (fun r => (r.id, r.callback)) =
        table.honest.flatMap (fun e =>
          (w.replica.waitingFor e.1).map fun callback => (e.1, callback)) ∧
      ∀ r ∈ more, (r.id, r.appearance) ∈ w.storedFor table ∧
        (w.linkedFor table).replica.Fills r.moment := by
  have hdistinct : (w.storedFor table).Pairwise fun s t => s.1 ≠ t.1 := by
    have hkeys := List.pairwise_map.mpr table.pairwise_honest
    rw [← map_fst_storedFor w] at hkeys
    exact List.pairwise_map.mp hkeys
  have hids : ∀ s ∈ w.storedFor table, (w.linkedFor table).replica.arena.id? s.2 = some s.1 := by
    intro s hs
    rw [replica_linkedFor, Replica.id?_linkEach]
    exact (w.replica.forgetAll.stored_storeAll table.honest).named s hs
  have hkept : w.Reports
      { w with replica := (w.replica.forgetAll.storeAll table.honest).1 } [] := by
    obtain ⟨arena, known, copies, heq⟩ := w.replica.forgetAll.storeAll_eq table.honest
    rw [heq]
    exact reports_of_eq rfl rfl rfl
  have hlinked : w.Reports (w.linkedFor table) [] := hkept.trans (reports_linkEach _ _)
  obtain ⟨more, hreports, hrecord, hmore⟩ := exists_runs_drainEach hids hdistinct
  refine ⟨more, ?_, ?_, hmore⟩
  · rw [applySnapshot_eq]
    exact hlinked.trans hreports
  · calc more.map (fun r => (r.id, r.callback))
        = (w.storedFor table).flatMap fun s =>
            (w.replica.waitingFor s.1).map fun callback => (s.1, callback) := by
          rw [hrecord]
          refine List.flatMap_congr fun s hs => ?_
          rw [w.waitingFor_linkedFor_of_mem table hs]
      _ = ((w.storedFor table).map Prod.fst).flatMap fun id =>
            (w.replica.waitingFor id).map fun callback => (id, callback) := by
          rw [List.flatMap_map]
      _ = table.honest.flatMap fun e =>
            (w.replica.waitingFor e.1).map fun callback => (e.1, callback) := by
          rw [map_fst_storedFor, List.flatMap_map]

theorem replaced_applySnapshot (h : w.replica.Settling [] []) (table : Snapshot) :
    w.Replaced (w.applySnapshot table) table := by
  have htracks := tracks_applySnapshot h table
  have hstored := w.replica.forgetAll.stored_storeAll table.honest
  have hknown (id : ContentId) (n : Serial) :
      (w.applySnapshot table).replica.find? id = some n ↔ (id, n) ∈ w.storedFor table := by
    rw [find?_applySnapshot, find?_linkedFor_eq_some_iff]
  have hlookup {id : ContentId} {state : WireState} :
      table.honest.lookup id = some state ↔ (id, state) ∈ table.honest :=
    Snapshot.lookup_eq_some_iff table.pairwise_honest
  constructor
  · intro id
    rw [← htracks.settling.isSome_ledger, htracks.ledger, Option.isSome_iff_exists]
    exact exists_congr fun state => hlookup
  · intro id n hfound
    have hledger : (w.applySnapshot table).replica.arena.state? n = table.honest.lookup id := by
      rw [← congrFun htracks.ledger id, Replica.ledger, hfound, Option.bind_some]
    obtain ⟨state, hstate, -⟩ :=
      Option.map_eq_some_iff.mp (htracks.settling.named id n hfound)
    refine ⟨hstored.fresh (id, n) ((hknown id n).mp hfound), state, ?_, hstate, ?_⟩
    · exact hlookup.mp (hledger.symm.trans hstate)
    · exact htracks.slotAt?_eq hfound hstate
  · intro id
    rw [applySnapshot_eq, replica_drainEach, Replica.copies_drainEach, replica_linkedFor,
      Replica.copies_linkEach]
    refine Replica.copies_storeAll (fun id => ?_) table.honest id
    simp [Replica.forgetAll]
  · exact table.ascending_honest
  · obtain ⟨more, hreports, hrecord, hmore⟩ := w.exists_runs_applySnapshot table
    refine ⟨more, hreports.ran, hreports.updates, hreports.notices, hrecord, fun r hr => ?_⟩
    obtain ⟨hmem, hfills⟩ := hmore r hr
    refine ⟨(hknown r.id r.appearance).mpr hmem, ?_, fun id n hfound => ?_⟩
    · funext id
      rw [hfills.find?, find?_applySnapshot]
    · exact hfills.linked (w.linked_linkedFor table (id, n) ((hknown id n).mp hfound))
  · exact fun id hfound => htracks.settling.awaited id hfound List.not_mem_nil
  · intro id hunknown
    obtain ⟨links, hlinks, hparents⟩ := w.exists_waitingFor_linkedFor table id
    have hnot : id ∉ (w.storedFor table).map Prod.fst := by
      intro hmem
      obtain ⟨s, hs, rfl⟩ := List.mem_map.mp hmem
      rw [(hknown s.1 s.2).mpr hs] at hunknown
      cases hunknown
    have hwaiting : (w.applySnapshot table).replica.waitingFor id =
        w.replica.waitingFor id ++ links := by
      rw [applySnapshot_eq, replica_drainEach, Replica.waitingFor_drainEach, if_neg hnot, hlinks]
    refine ⟨links, hwaiting, fun callback hcallback => ?_⟩
    obtain ⟨s, hs, k, rfl⟩ := hparents callback hcallback
    refine ⟨s.1, s.2, k, (hknown s.1 s.2).mpr hs, rfl, ?_⟩
    refine (htracks.settling.aimed id s.2 k ?_).1
    rw [hwaiting]
    exact List.mem_append_right _ hcallback

/-! ## Every history -/

/-- Whatever has happened to a replica, a table puts its honest entries in the place of all that
was known, without shared copies and with every slot filled whose id is among them; only then
does it run what waited for them, and nothing else adds to the changes of icons and to the
notices.  So after the same table any two replicas know the same, have the same links and share
no copies. -/
theorem table_replaces (tileSize : ℕ) (operations : List Operation) (table : Snapshot) :
    let w := reached tileSize operations
    let w' := w.operate (.step (.message (.snapshot table)))
    w'.replica = w.replica.applySnapshot table ∧ w.Replaced w' table ∧
    ∀ tileSize' operations',
      let v := (reached tileSize' operations').operate (.step (.message (.snapshot table)))
      v.replica.ledger = w'.replica.ledger ∧ v.replica.linkAt = w'.replica.linkAt ∧
        ∀ id : ContentId, v.replica.copies[id]? = w'.replica.copies[id]? := by
  intro w w'
  have hw := settling_reached tileSize operations
  have hreplaced := replaced_applySnapshot hw table
  have htracks := tracks_applySnapshot hw table
  refine ⟨w.replica_step (.message (.snapshot table)), hreplaced, ?_⟩
  intro tileSize' operations' v
  have hv := settling_reached tileSize' operations'
  have htracks' := tracks_applySnapshot hv table
  refine ⟨htracks'.ledger.trans htracks.ledger.symm, ?_, ?_⟩
  · funext id k
    exact (htracks'.linkAt_eq id k).trans (htracks.linkAt_eq id k).symm
  · intro id
    exact ((replaced_applySnapshot hv table).copies id).trans (hreplaced.copies id).symm

end Watched
end AppearanceSync
