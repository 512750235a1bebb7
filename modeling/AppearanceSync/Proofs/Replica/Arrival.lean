import AppearanceSync.Proofs.Replica.Descent
import AppearanceSync.Proofs.Replica.Tracking
import AppearanceSync.Proofs.Unfolding

/-!
# The order in which appearances arrive

The entries of a table may reach a replica one by one, in any order and any number of
times, or all at once.  An entry that arrives again takes the place of its instance,
but what already stands in slots stays there.  In the end this cannot be told from
outside: all instances have states of the table, so an instance in a slot unfolds into
the same tree as the one that took its place.
-/

namespace AppearanceSync
namespace Replica

/-- The replica has exactly what the ledger has, in the same states and with every
slot filled at every level, and its copies are what the ledger unfolds into. -/
structure Realizes (c : Replica) (K : Ledger) : Prop where
  ids : ∀ id, (c.find? id).isSome = (K id).isSome
  same : ∀ id state, K id = some state → ∃ n d, c.find? id = some n ∧
    c.arena.state? n = some state ∧ c.arena.isResolved n = true ∧
    c.arena.descriptor? n = some (.ok d) ∧ K.Unfolds id d

/-- Every instance, known or not, has a state of the ledger. -/
def DrawnFrom (c : Replica) (K : Ledger) : Prop :=
  ∀ n state, c.arena.state? n = some state → K state.contentId = some state

/-- The entry that a call brings, whether it is inserted or announced. -/
def Call.brings? : Call → Option (ContentId × WireState)
  | .insert id state => some (id, state)
  | .message (.added a) => some (a.id, a.appearance)
  | _ => none

variable {c c' : Replica} {K : Ledger} {id : ContentId} {state : WireState} {n m : Serial}
  {unlinked : List Serial} {undrained : List ContentId} {rank : ContentId → ℕ}
  {entries : List (ContentId × WireState)} {P : WireState → Prop}

/-! ## States of instances -/

/-- Every instance, known or not, has a state of this kind. -/
def AllStates (c : Replica) (P : WireState → Prop) : Prop :=
  ∀ n state, c.arena.state? n = some state → P state

theorem allStates_empty (tileSize : ℕ) (P : WireState → Prop) : (empty tileSize).AllStates P := by
  intro n state hn
  simp [empty, Arena.empty, Arena.state?, Arena.get?] at hn

theorem AllStates.of_state?_eq (h : c.AllStates P) (hstate : c'.arena.state? = c.arena.state?) :
    c'.AllStates P := by
  intro n state hn
  rw [hstate] at hn
  exact h n state hn

theorem AllStates.keep (h : c.AllStates P) (hP : P state) (id : ContentId) :
    (c.keep id state).AllStates P := by
  intro n other hn
  have hn := (c.arena.state?_push (.ofState state) n).symm.trans hn
  split at hn
  · obtain rfl := Option.some.inj hn
    exact hP
  · exact h n other hn

theorem AllStates.insert (h : c.AllStates P) (hP : P state) (id : ContentId) :
    (c.insert id state).AllStates P := by
  by_cases hid : state.contentId = id
  · rw [insert_of_named hid]
    refine (h.keep hP id).of_state?_eq (funext fun n => ?_)
    rw [arena_drain, Arena.state?_serveAll, state?_link]
  · rwa [insert_of_misnamed hid]

theorem AllStates.storeAll (h : c.AllStates P) (hP : ∀ e ∈ entries, P e.2) :
    (c.storeAll entries).1.AllStates P := by
  induction entries generalizing c with
  | nil => exact h
  | cons entry entries ih =>
      obtain ⟨id, state⟩ := entry
      have hrest : ∀ e ∈ entries, P e.2 := fun e he => hP e (by simp [he])
      by_cases hid : state.contentId = id
      · rw [storeAll_cons_of_named hid]
        exact ih (h.keep (hP (id, state) List.mem_cons_self) id) hrest
      · rw [storeAll_cons_of_misnamed hid]
        exact ih h hrest

theorem state?_linkEach (c : Replica) (stored : List (ContentId × Serial)) :
    (c.linkEach stored).arena.state? = c.arena.state? := by
  induction stored generalizing c with
  | nil => rfl
  | cons s stored ih => exact (ih (c.link s.2)).trans (funext (state?_link c s.2))

theorem state?_drainEach (c : Replica) (stored : List (ContentId × Serial)) :
    (c.drainEach stored).arena.state? = c.arena.state? := by
  induction stored generalizing c with
  | nil => rfl
  | cons s stored ih =>
      refine (ih (c.drain s.1 s.2)).trans (funext fun n => ?_)
      rw [arena_drain, Arena.state?_serveAll]

theorem AllStates.applyEntries (h : c.AllStates P) (hP : ∀ e ∈ entries, P e.2) :
    (c.applyEntries entries).AllStates P := by
  rw [applyEntries_eq]
  have hstored : (c.forgetAll.storeAll entries).1.AllStates P := AllStates.storeAll h hP
  exact hstored.of_state?_eq ((state?_drainEach _ _).trans (state?_linkEach _ _))

/-! ## Instances of a ledger -/

theorem DrawnFrom.insert (h : c.DrawnFrom K) (hname : K state.contentId = some state)
    (id : ContentId) : (c.insert id state).DrawnFrom K := AllStates.insert h hname id

theorem DrawnFrom.applyEntries (h : c.DrawnFrom K)
    (hnamed : ∀ e ∈ entries, K e.2.contentId = some e.2) :
    (c.applyEntries entries).DrawnFrom K := AllStates.applyEntries h hnamed

theorem drawnFrom_empty (tileSize : ℕ) (K : Ledger) : (empty tileSize).DrawnFrom K :=
  allStates_empty tileSize _

/-- A replica knows nothing that the ledger does not have. -/
theorem DrawnFrom.ledger_eq (h : c.DrawnFrom K) (hs : c.Settling unlinked undrained)
    (hn : c.find? id = some n) : K id = c.arena.state? n := by
  obtain ⟨state, hstate, rfl⟩ := Option.map_eq_some_iff.mp (hs.named id n hn)
  rw [hstate, h n state hstate]

/-! ## Once everything has arrived -/

/-- All of the ledger has arrived, and nothing else. -/
structure Arrived (c : Replica) (K : Ledger) : Prop where
  settling : c.Settling [] []
  drawn : c.DrawnFrom K
  all : ∀ id, (K id).isSome → (c.find? id).isSome

/-- No slot is empty: what is missing in a slot would not have arrived. -/
theorem Arrived.exists_target (h : c.Arrived K) (hclosed : K.Closed) {i : Instance}
    (hi : c.arena.get? n = some i) {s : ContentId × Option Serial} (hmem : s ∈ i.slots) :
    ∃ m, s.2 = some m ∧ c.arena.Holds n m ∧ c.arena.id? m = some s.1 ∧
      K.Refers i.state.contentId s.1 := by
  have hstate : K i.state.contentId = some i.state :=
    h.drawn n i.state (by rw [Arena.state?, hi]; rfl)
  have href : s.1 ∈ i.state.references := by
    rw [← h.settling.shaped n i hi]
    exact List.mem_map_of_mem hmem
  obtain ⟨k, hk⟩ := List.mem_iff_getElem?.mp hmem
  have hslot : c.arena.slotAt? n k = some s := by
    rw [Arena.slotAt?, hi, Option.bind_some, hk]
  obtain ⟨ref, target⟩ := s
  by_cases hempty : target = none
  · subst hempty
    have hknown := h.all ref (hclosed _ _ hstate ref href)
    have hreason := (h.settling.empty n k ref hslot List.not_mem_nil).1
    simp [hreason.resolve_right List.not_mem_nil] at hknown
  · obtain ⟨m, rfl⟩ := Option.ne_none_iff_exists'.mp hempty
    exact ⟨m, rfl, ⟨k, ref, hslot⟩, h.settling.filled n k ref m hslot, i.state, hstate, href⟩

/-- The rank of what an instance is named. -/
def rankAt (c : Replica) (rank : ContentId → ℕ) (n : Serial) : ℕ :=
  ((c.arena.id? n).map rank).getD 0

theorem Arrived.descends (h : c.Arrived K) (hclosed : K.Closed)
    (hrank : ∀ id ref, K.Refers id ref → rank ref < rank id) :
    c.arena.Descends (· < c.arena.next) (c.rankAt rank) := by
  rintro n hn m ⟨k, ref, hslot⟩
  obtain ⟨i, hi, hk⟩ := Option.bind_eq_some_iff.mp hslot
  obtain ⟨m', hm', -, hid, href⟩ := h.exists_target hclosed hi (List.mem_of_getElem? hk)
  obtain rfl : m = m' := Option.some.inj hm'
  have hname : c.arena.id? n = some i.state.contentId := by
    rw [Arena.id?, Arena.state?, hi]
    rfl
  obtain ⟨state, hstate, -⟩ := Option.map_eq_some_iff.mp hid
  obtain ⟨j, hj, -⟩ := Option.map_eq_some_iff.mp hstate
  refine ⟨(Array.getElem?_eq_some_iff.mp hj).1, ?_⟩
  rw [rankAt, rankAt, hid, hname]
  exact hrank _ _ href

theorem Arrived.isResolved (h : c.Arrived K) (hclosed : K.Closed)
    (hrank : ∀ id ref, K.Refers id ref → rank ref < rank id) (hn : n < c.arena.next) :
    c.arena.isResolved n = true := by
  refine (h.descends hclosed hrank).isResolved (fun n hn => ?_) hn
  refine ⟨_, Array.getElem?_eq_getElem hn, fun s hmem => ?_⟩
  obtain ⟨m, hm, -⟩ := h.exists_target hclosed (Array.getElem?_eq_getElem hn) hmem
  rw [hm, Option.isSome_some]

/-- The copy of an instance is what its name unfolds into. -/
theorem Arrived.descriptor? (h : c.Arrived K) (hclosed : K.Closed)
    (hrank : ∀ id ref, K.Refers id ref → rank ref < rank id) (hname : c.arena.id? n = some id) :
    ∃ d, c.arena.descriptor? n = some (.ok d) ∧ K.Unfolds id d := by
  have hin : n < c.arena.next := by
    obtain ⟨state, hstate, -⟩ := Option.map_eq_some_iff.mp hname
    obtain ⟨i, hi, -⟩ := Option.map_eq_some_iff.mp hstate
    exact (Array.getElem?_eq_some_iff.mp hi).1
  refine (h.descends hclosed hrank).levels_suffice (F := fun l n => ∀ id,
    c.arena.id? n = some id → ∃ d, c.arena.descriptorWithin l n = some (.ok d) ∧ K.Unfolds id d)
    (fun _ hn => hn) ?_ hin id hname
  intro l n hn hlower id hname
  have hi : c.arena.get? n = some c.arena.instances[n] := Array.getElem?_eq_getElem hn
  generalize c.arena.instances[n] = i at hi
  obtain rfl : i.state.contentId = id := by
    rw [Arena.id?, Arena.state?, hi] at hname
    exact Option.some.inj hname
  -- each slot is copied, and the copy is what the slot's id unfolds into
  have hcopies (slots : List (ContentId × Option Serial)) (hsub : ∀ s ∈ slots, s ∈ i.slots) :
      ∃ ds, slots.mapM (Arena.slotCopy (c.arena.descriptorWithin l)) = .ok ds ∧
        List.Forall₂ K.Unfolds (slots.map Prod.fst) ds := by
    have hslot : ∀ s ∈ slots, ∃ d, Arena.slotCopy (c.arena.descriptorWithin l) s = .ok d ∧
        K.Unfolds s.1 d := by
      intro s hs
      obtain ⟨m, hm, hholds, hid, -⟩ := h.exists_target hclosed hi (hsub s hs)
      obtain ⟨d, hd, hunfolds⟩ := hlower m hholds s.1 hid
      refine ⟨d, ?_, hunfolds⟩
      rw [Arena.slotCopy, hm, Option.bind_some, hd, Option.getD_some]
    obtain ⟨ds, hds⟩ := exists_forall₂ hslot
    refine ⟨ds, mapM_eq_ok_iff.mpr (hds.imp fun _ _ hd => hd.1), ?_⟩
    rw [List.forall₂_map_left_iff]
    exact hds.imp fun _ _ hd => hd.2
  have hnames := h.settling.shaped n i hi
  rw [WireState.references] at hnames
  have hover : i.overlaySlots.map Prod.fst = i.state.overlays := by
    rw [Instance.overlaySlots, List.map_take, hnames, List.take_left]
  have hunder : i.underlaySlots.map Prod.fst = i.state.underlays := by
    rw [Instance.underlaySlots, List.map_drop, hnames, List.drop_left]
  obtain ⟨overlays, hovers, hover'⟩ := hcopies i.overlaySlots fun s hs => List.mem_of_mem_take hs
  obtain ⟨underlays, hunders, hunder'⟩ :=
    hcopies i.underlaySlots fun s hs => List.mem_of_mem_drop hs
  rw [hover] at hover'
  rw [hunder] at hunder'
  refine ⟨⟨i.state.properties, overlays, underlays⟩, ?_, ?_⟩
  · exact Arena.descriptorWithin_succ_eq_ok.mpr ⟨i, hi, rfl, hovers, hunders⟩
  · exact Ledger.unfolds_iff.mpr ⟨i.state, h.drawn n _ (by rw [Arena.state?, hi]; rfl), rfl,
      hover', hunder'⟩

/-- A replica to which a complete table has arrived realizes it. -/
theorem Arrived.realizes {table : Snapshot} (h : c.Arrived (Ledger.ofTable table))
    (hcomplete : table.Complete) : c.Realizes (Ledger.ofTable table) := by
  have hledger (id : ContentId) (n : Serial) (hn : c.find? id = some n) :
      Ledger.ofTable table id = c.arena.state? n := h.drawn.ledger_eq h.settling hn
  constructor
  · intro id
    refine Bool.eq_iff_iff.mpr ⟨fun hknown => ?_, h.all id⟩
    obtain ⟨n, hn⟩ := Option.isSome_iff_exists.mp hknown
    obtain ⟨state, hstate, -⟩ := Option.map_eq_some_iff.mp (h.settling.named id n hn)
    rw [hledger id n hn, hstate, Option.isSome_some]
  · intro id state hstate
    obtain ⟨n, hn⟩ := Option.isSome_iff_exists.mp (h.all id (by rw [hstate, Option.isSome_some]))
    have hname := h.settling.named id n hn
    obtain ⟨d, hd, hunfolds⟩ := h.descriptor? hcomplete.closed (fun _ _ => hcomplete.rank_lt) hname
    rw [hledger id n hn] at hstate
    obtain ⟨i, hi, -⟩ := Option.map_eq_some_iff.mp hstate
    exact ⟨n, d, hn, hstate, h.isResolved hcomplete.closed (fun _ _ => hcomplete.rank_lt)
      (Array.getElem?_eq_some_iff.mp hi).1, hd, hunfolds⟩

/-! ## Arrivals -/

theorem find?_insert (hname : state.contentId = id) (c : Replica) (other : ContentId) :
    (c.insert id state).find? other = if other = id then some c.arena.next else c.find? other := by
  rw [insert_of_named hname, find?_drain, find?_link, find?_keep]

theorem call_of_brings? {call : Call} (h : call.brings? = some (id, state)) :
    c.call call = c.insert id state := by
  unfold Call.brings? at h
  split at h
  · obtain ⟨rfl, rfl⟩ := Prod.mk.inj (Option.some.inj h)
    rfl
  · obtain ⟨rfl, rfl⟩ := Prod.mk.inj (Option.some.inj h)
    rfl
  · cases h

variable {calls : List Call}

/-- Calls that bring entries of a ledger bring nothing else. -/
theorem drawnFrom_calls (hs : c.Settling [] []) (hdrawn : c.DrawnFrom K)
    (honly : ∀ call ∈ calls, ∃ id state, call.brings? = some (id, state) ∧
      K state.contentId = some state) :
    (calls.foldl Replica.call c).Settling [] [] ∧ (calls.foldl Replica.call c).DrawnFrom K := by
  induction calls generalizing c with
  | nil => exact ⟨hs, hdrawn⟩
  | cons call calls ih =>
      obtain ⟨id, state, he, hname⟩ := honly call List.mem_cons_self
      refine ih (hs.call call) ?_ fun call hcall => honly call (List.mem_cons_of_mem _ hcall)
      rw [call_of_brings? he]
      exact hdrawn.insert hname id

/-- Whatever was known or is brought is known in the end. -/
theorem isSome_find?_calls
    (honly : ∀ call ∈ calls, ∃ id state, call.brings? = some (id, state) ∧ state.contentId = id)
    (hknown : (c.find? id).isSome ∨ ∃ call ∈ calls, call.brings? = some (id, state)) :
    ((calls.foldl Replica.call c).find? id).isSome := by
  induction calls generalizing c with
  | nil => exact hknown.resolve_right (by simp)
  | cons call calls ih =>
      obtain ⟨first, firstState, he, hname⟩ := honly call List.mem_cons_self
      refine ih (fun call hcall => honly call (List.mem_cons_of_mem _ hcall)) ?_
      rw [call_of_brings? he, find?_insert hname]
      by_cases heq : id = first
      · rw [if_pos heq]
        exact Or.inl rfl
      · rw [if_neg heq]
        refine hknown.imp_right ?_
        rintro ⟨other, hother, hstate⟩
        rcases List.mem_cons.mp hother with rfl | hother
        · rw [he] at hstate
          exact absurd (Prod.mk.inj (Option.some.inj hstate)).1.symm heq
        · exact ⟨other, hother, hstate⟩

theorem Realizes.copies_eq (h : c.Realizes K) (h' : c'.Realizes K) (id : ContentId) :
    (c.find? id).bind c.arena.descriptor? = (c'.find? id).bind c'.arena.descriptor? := by
  cases hstate : K id with
  | none =>
      have hnone (d : Replica) (hd : d.Realizes K) : d.find? id = none := by
        rw [← Option.not_isSome_iff_eq_none, hd.ids, hstate]
        exact Bool.false_ne_true
      rw [hnone c h, hnone c' h']
      rfl
  | some state =>
      obtain ⟨n, d, hn, -, -, hd, hunfolds⟩ := h.same id state hstate
      obtain ⟨n', d', hn', -, -, hd', hunfolds'⟩ := h'.same id state hstate
      rw [hn, hn', Option.bind_some, Option.bind_some, hd, hd', hunfolds.unique hunfolds']

/-- The entries of a complete table may arrive in any order and any number of times,
each of them inserted or announced.  Once every entry has arrived, the replica has
exactly the table's ids, each in the table's state, with everything below it and with
the tree that the table unfolds into.  The same holds if the table arrives at once. -/
theorem realizes_in_any_order
    (tileSize : ℕ) (table : Snapshot) (calls : List Call) (hcomplete : table.Complete)
    (honly : ∀ call ∈ calls, ∃ e ∈ table.entries, call.brings? = some e)
    (hall : ∀ e ∈ table.entries, ∃ call ∈ calls, call.brings? = some e) :
    let gradual := calls.foldl call (empty tileSize)
    let atOnce := (empty tileSize).applySnapshot table
    gradual.Realizes (Ledger.ofTable table) ∧ atOnce.Realizes (Ledger.ofTable table) ∧
      ∀ id, (gradual.find? id).bind gradual.arena.descriptor? =
        (atOnce.find? id).bind atOnce.arena.descriptor? := by
  intro gradual atOnce
  have hentry (e : ContentId × WireState) (he : e ∈ table.entries) :
      Ledger.ofTable table e.2.contentId = some e.2 := by
    rw [hcomplete.named e he]
    exact Snapshot.ofTable_eq_some_iff.mpr he
  have hempty := settling_empty tileSize
  have hdrawn := drawnFrom_empty tileSize (Ledger.ofTable table)
  have hgradual : gradual.Arrived (Ledger.ofTable table) := by
    have hbrings (call : Call) (hcall : call ∈ calls) : ∃ id state,
        call.brings? = some (id, state) ∧ Ledger.ofTable table state.contentId = some state ∧
          state.contentId = id := by
      obtain ⟨e, he, hcall⟩ := honly call hcall
      exact ⟨e.1, e.2, hcall, hentry e he, hcomplete.named e he⟩
    obtain ⟨hs, hdrawn⟩ := drawnFrom_calls hempty hdrawn fun call hcall => by
      obtain ⟨id, state, hcall, hstate, -⟩ := hbrings call hcall
      exact ⟨id, state, hcall, hstate⟩
    refine ⟨hs, hdrawn, fun id hid => ?_⟩
    obtain ⟨state, hstate⟩ := Option.isSome_iff_exists.mp hid
    have hlast := hall (id, state) (Snapshot.ofTable_eq_some_iff.mp hstate)
    refine isSome_find?_calls (fun call hcall => ?_) (Or.inr hlast)
    obtain ⟨id, state, hcall, -, hname⟩ := hbrings call hcall
    exact ⟨id, state, hcall, hname⟩
  have hatOnce : atOnce.Arrived (Ledger.ofTable table) := by
    have htracks := hempty.tracks_applyEntries table.pairwise_ne hcomplete.named
    refine ⟨htracks.settling, hdrawn.applyEntries hentry, fun id hid => ?_⟩
    have hsome := htracks.settling.isSome_ledger id
    rw [htracks.ledger] at hsome
    exact hsome.symm.trans hid
  have hrealizes := hgradual.realizes hcomplete
  have hrealizes' := hatOnce.realizes hcomplete
  exact ⟨hrealizes, hrealizes', hrealizes.copies_eq hrealizes'⟩

/-- An appearance arrives before what is drawn over and under it, and both arrive twice. -/
theorem realizes_in_any_order_twice :
    let leaf : WireState := .ofProperties .plain
    let whole : WireState := ⟨.plain, [leaf.contentId], [leaf.contentId]⟩
    let table : Snapshot := .ofList [(whole.contentId, whole), (leaf.contentId, leaf)]
    let calls : List Call := [.insert whole.contentId whole,
      .message (.added ⟨leaf.contentId, leaf⟩), .message (.added ⟨whole.contentId, whole⟩),
      .insert leaf.contentId leaf]
    table.Complete ∧ (calls.foldl call (empty 32)).Realizes (Ledger.ofTable table) ∧
      (calls.foldl call (empty 32)).find? whole.contentId = some 2 := by
  intro leaf whole table calls
  have hcomplete : table.Complete :=
    Snapshot.complete_of_rank (fun id => if id = whole.contentId then 1 else 0)
      (by decide +kernel) (by decide +kernel)
  have hrealizes := realizes_in_any_order 32 table calls hcomplete
    (by decide +kernel) (by decide +kernel)
  exact ⟨hcomplete, hrealizes.1, by decide +kernel⟩

end Replica
end AppearanceSync
