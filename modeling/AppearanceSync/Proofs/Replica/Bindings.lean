import AppearanceSync.Proofs.Replica.Arrival
import AppearanceSync.Proofs.Replica.Callbacks

/-!
# Bindings of an entity

An entity is bound to an appearance by a callback that waits until the appearance is known and
then changes the entity's icon.  For every step of a replica this module says which bindings of
an entity it serves: exactly those whose id is known after the step.  A table serves them in
ascending order of their ids, and in no other case does a step serve several ids.
-/

namespace AppearanceSync

theorem ContentId.ne_of_hash_lt {a b : ContentId} (h : a.hash < b.hash) : a ≠ b := by
  rintro rfl
  exact UInt64.lt_irrefl _ h

/-- What the callback changes the icon of, if it does. -/
def Callback.target? : Callback → Option Target
  | .update target _ => some target
  | .notify _ | .link _ _ => none

/-- The id to which a step binds an entity, if it does. -/
def Step.binds? (e : EntityId) : Step → Option ContentId
  | .request (.bind entity id) => if entity = e then some id else none
  | _ => none

/-- The step does not animate the entity. -/
def Step.Spares (e : EntityId) (s : Step) : Prop :=
  ∀ a, s = .message (.animate a) → a.target ≠ .entity e

namespace Replica

variable {c c' : Replica} {e : EntityId} {id : ContentId} {n : Serial} {callback : Callback}
  {callbacks : List Callback} {stored : List (ContentId × Serial)}
  {entries : List (ContentId × WireState)}

/-- The changes of an entity's icon that nobody has taken yet. -/
def changesFor (c : Replica) (e : EntityId) : List IconUpdate :=
  c.updates.filter fun u => u.target = .entity e

/-- What waits for an id to change an entity's icon. -/
def dues (c : Replica) (e : EntityId) (id : ContentId) : List Callback :=
  (c.waitingFor id).filter fun callback => callback.target? = some (.entity e)

/-- A binding of the entity waits for the id. -/
def Owes (c : Replica) (e : EntityId) (id : ContentId) : Prop := c.dues e id ≠ []

/-- Whatever waits to change the entity's icon waits to show an appearance. -/
def OnlyShows (c : Replica) (e : EntityId) : Prop :=
  ∀ id, ∀ callback ∈ c.dues e id, callback = .update (.entity e) .show

/-- The bindings of an entity to these ids, each with the instance of its id. -/
def newsOf (c : Replica) (e : EntityId) (stored : List (ContentId × Serial)) :
    List (ContentId × Serial) :=
  stored.flatMap fun s => (c.dues e s.1).map fun _ => s

/-- From the first replica to the second, the bindings of an entity whose ids are known now have
been served with this news, and the others are owed.  One binding may have been added. -/
structure Serves (c c' : Replica) (e : EntityId) (bound : Option ContentId)
    (news : List (ContentId × Serial)) : Prop where
  named : ∀ n id, c.arena.id? n = some id → c'.arena.id? n = some id
  onlyShows : c'.OnlyShows e
  owes : ∀ id, c'.Owes e id ↔ (c.Owes e id ∨ bound = some id) ∧ c'.find? id = none
  changes : c'.changesFor e = c.changesFor e ++ news.map fun s => ⟨.entity e, s.2, .show⟩
  known : ∀ s ∈ news, c'.find? s.1 = some s.2
  ascending : news.Pairwise fun s t => s.1.hash ≤ t.1.hash
  served : ∀ id, id ∈ news.map Prod.fst ↔
    (c.Owes e id ∨ bound = some id) ∧ (c'.find? id).isSome = true

/-! ## Changes -/

theorem updates_runAll (c : Replica) (n : Serial) (callbacks : List Callback) :
    (callbacks.foldl (fun c callback => c.run n callback) c).updates =
      c.updates ++ callbacks.filterMap (Callback.update? n) := by
  induction callbacks generalizing c with
  | nil => exact (List.append_nil _).symm
  | cons callback callbacks ih =>
      rw [List.foldl_cons, ih, updates_run, List.append_assoc, List.filterMap_cons]
      cases callback.update? n <;> rfl

theorem updates_link (c : Replica) (n : Serial) : (c.link n).updates = c.updates := by
  rw [link_eq]
  exact linkAll_induction (motive := fun d => d.updates = c.updates) rfl
    (fun _ _ _ h => h) fun _ _ _ h => h

theorem updates_storeAll (c : Replica) (entries : List (ContentId × WireState)) :
    (c.storeAll entries).1.updates = c.updates := by
  obtain ⟨arena, known, copies, heq⟩ := storeAll_eq c entries
  rw [heq]

theorem updates_linkEach (c : Replica) (stored : List (ContentId × Serial)) :
    (c.linkEach stored).updates = c.updates := by
  induction stored generalizing c with
  | nil => rfl
  | cons s stored ih => exact (ih (c.link s.2)).trans (updates_link c s.2)

theorem changesFor_of_updates (h : c'.updates = c.updates) (e : EntityId) :
    c'.changesFor e = c.changesFor e := by
  rw [changesFor, h, changesFor]

/-- The changes of one entity's icon among all that callbacks make. -/
theorem filter_updates (callbacks : List Callback) (n : Serial) (e : EntityId) :
    (callbacks.filterMap (Callback.update? n)).filter (fun u => u.target = .entity e) =
      (callbacks.filter fun callback => callback.target? = some (.entity e)).filterMap
        (Callback.update? n) := by
  rw [List.filter_filterMap, List.filterMap_filter]
  refine List.filterMap_congr fun callback _ => ?_
  cases callback with
  | update target change =>
      by_cases h : target = .entity e
      · simp [Callback.update?, Callback.target?, h, Option.filter]
      · simp [Callback.update?, Callback.target?, h, Option.filter]
  | notify tag => rfl
  | link parent slot => rfl

/-- Running what waits for an id serves the bindings of an entity to it. -/
theorem changesFor_drain (h : c.OnlyShows e) (id : ContentId) (n : Serial) :
    (c.drain id n).changesFor e =
      c.changesFor e ++ (c.dues e id).map fun _ => ⟨.entity e, n, .show⟩ := by
  have hmade : (c.dues e id).filterMap (Callback.update? n) =
      (c.dues e id).map fun _ => ⟨.entity e, n, .show⟩ := by
    rw [← List.filterMap_eq_map]
    refine List.filterMap_congr fun callback hmem => ?_
    rw [h id callback hmem]
    rfl
  have hupdates : (c.drain id n).updates =
      c.updates ++ (c.waitingFor id).filterMap (Callback.update? n) := updates_runAll _ n _
  rw [changesFor, hupdates, List.filter_append, filter_updates, ← hmade]
  rfl

/-! ## Bindings that wait -/

theorem dues_of_waiting (h : c'.waiting = c.waiting) (e : EntityId) (id : ContentId) :
    c'.dues e id = c.dues e id := by
  rw [dues, waitingFor_of_waiting h, dues]

theorem dues_wait (c : Replica) (id : ContentId) (callback : Callback) (e : EntityId)
    (other : ContentId) :
    (c.wait id callback).dues e other =
      c.dues e other ++
        if other = id ∧ callback.target? = some (.entity e) then [callback] else [] := by
  rw [dues, waitingFor_wait, List.filter_append, dues]
  congr 1
  by_cases hid : other = id
  · by_cases htarget : callback.target? = some (.entity e)
    · simp [hid, htarget]
    · simp [hid, htarget]
  · simp [hid]

theorem dues_link (c : Replica) (n : Serial) (e : EntityId) (id : ContentId) :
    (c.link n).dues e id = c.dues e id := by
  rw [link_eq]
  refine linkAll_induction (motive := fun d => d.dues e id = c.dues e id) rfl
    (fun _ _ _ h => h) fun d other slot h => ?_
  rw [dues_wait, h, if_neg, List.append_nil]
  rintro ⟨-, htarget⟩
  cases htarget

theorem dues_linkEach (c : Replica) (stored : List (ContentId × Serial)) (e : EntityId)
    (id : ContentId) : (c.linkEach stored).dues e id = c.dues e id := by
  induction stored generalizing c with
  | nil => rfl
  | cons s stored ih => exact (ih (c.link s.2)).trans (dues_link c s.2 e id)

theorem dues_drain (c : Replica) (id : ContentId) (n : Serial) (e : EntityId)
    (other : ContentId) :
    (c.drain id n).dues e other = if other = id then [] else c.dues e other := by
  rw [dues, waitingFor_drain]
  split <;> rfl

theorem dues_drainEach (c : Replica) (stored : List (ContentId × Serial)) (e : EntityId)
    (id : ContentId) :
    (c.drainEach stored).dues e id = if id ∈ stored.map Prod.fst then [] else c.dues e id := by
  rw [dues, waitingFor_drainEach]
  split <;> rfl

theorem OnlyShows.of_dues (h : c.OnlyShows e)
    (hdues : ∀ id, ∀ callback ∈ c'.dues e id, callback ∈ c.dues e id) : c'.OnlyShows e :=
  fun id callback hmem => h id callback (hdues id callback hmem)

theorem OnlyShows.drain (h : c.OnlyShows e) (id : ContentId) (n : Serial) :
    (c.drain id n).OnlyShows e := by
  refine h.of_dues fun other callback hmem => ?_
  rw [dues_drain] at hmem
  split at hmem
  · exact absurd hmem List.not_mem_nil
  · exact hmem

/-- Of ids that differ, each is drained with all that waited for it. -/
theorem changesFor_drainEach (h : c.OnlyShows e)
    (hdistinct : stored.Pairwise fun s t => s.1 ≠ t.1) :
    (c.drainEach stored).changesFor e =
      c.changesFor e ++ (c.newsOf e stored).map fun s => ⟨.entity e, s.2, .show⟩ := by
  induction stored generalizing c with
  | nil => exact (List.append_nil _).symm
  | cons s stored ih =>
      obtain ⟨hs, hrest⟩ := List.pairwise_cons.mp hdistinct
      have hothers : (c.drain s.1 s.2).newsOf e stored = c.newsOf e stored := by
        refine List.flatMap_congr fun t ht => ?_
        rw [dues_drain, if_neg (Ne.symm (hs t ht))]
      refine (ih (h.drain s.1 s.2) hrest).trans ?_
      rw [hothers, changesFor_drain h, List.append_assoc, newsOf, newsOf, List.flatMap_cons,
        List.map_append, List.map_map]
      rfl

theorem mem_newsOf {s : ContentId × Serial} :
    s ∈ c.newsOf e stored ↔ s ∈ stored ∧ c.Owes e s.1 := by
  rw [newsOf, List.mem_flatMap]
  constructor
  · rintro ⟨t, ht, hs⟩
    obtain ⟨callback, hmem, rfl⟩ := List.mem_map.mp hs
    exact ⟨ht, List.ne_nil_of_mem hmem⟩
  · rintro ⟨hs, hne⟩
    obtain ⟨callback, hmem⟩ := List.exists_mem_of_ne_nil _ hne
    exact ⟨s, hs, List.mem_map.mpr ⟨callback, hmem, rfl⟩⟩

theorem ascending_newsOf (c : Replica) (e : EntityId)
    (hless : stored.Pairwise fun s t => s.1.hash < t.1.hash) :
    (c.newsOf e stored).Pairwise fun s t => s.1.hash ≤ t.1.hash := by
  refine List.pairwise_flatMap.mpr ⟨fun s _ => ?_, hless.imp fun {s t} hlt a ha b hb => ?_⟩
  · exact List.pairwise_map.mpr (List.pairwise_of_forall fun _ _ => UInt64.le_refl _)
  · obtain ⟨-, -, rfl⟩ := List.mem_map.mp ha
    obtain ⟨-, -, rfl⟩ := List.mem_map.mp hb
    exact UInt64.le_of_lt hlt

/-! ## Storing -/

/-- The replica after entries have been stored and all that waited for them has been run. -/
def put (c : Replica) (entries : List (ContentId × WireState)) : Replica :=
  ((c.storeAll entries).1.linkEach (c.storeAll entries).2).drainEach (c.storeAll entries).2

theorem insert_eq_put (c : Replica) (id : ContentId) (state : WireState) :
    c.insert id state = c.put [(id, state)] := by
  by_cases hname : state.contentId = id
  · rw [insert_of_named hname, put, storeAll_cons_of_named hname]
    rfl
  · rw [insert_of_misnamed hname, put, storeAll_cons_of_misnamed hname]
    rfl

theorem storeAll_sublist (c : Replica) (entries : List (ContentId × WireState)) :
    ((c.storeAll entries).2.map Prod.fst).Sublist (entries.map Prod.fst) := by
  induction entries generalizing c with
  | nil => exact .refl _
  | cons entry entries ih =>
      obtain ⟨id, state⟩ := entry
      by_cases hname : state.contentId = id
      · rw [storeAll_cons_of_named hname]
        exact (ih (c.keep id state)).cons_cons id
      · rw [storeAll_cons_of_misnamed hname]
        exact (ih c).cons id

theorem find?_storeAll_of_not_mem (c : Replica) (entries : List (ContentId × WireState))
    (h : id ∉ (c.storeAll entries).2.map Prod.fst) :
    (c.storeAll entries).1.find? id = c.find? id := by
  induction entries generalizing c with
  | nil => rfl
  | cons entry entries ih =>
      obtain ⟨other, state⟩ := entry
      by_cases hname : state.contentId = other
      · rw [storeAll_cons_of_named hname] at h ⊢
        obtain ⟨hne, hrest⟩ := not_or.mp (List.mem_cons.not.mp h)
        refine (ih (c.keep other state) hrest).trans ?_
        rw [find?_keep, if_neg hne]
      · rw [storeAll_cons_of_misnamed hname] at h ⊢
        exact ih c h

theorem find?_put (c : Replica) (entries : List (ContentId × WireState)) (id : ContentId) :
    (c.put entries).find? id = (c.storeAll entries).1.find? id := by
  rw [put, find?_drainEach, find?_linkEach]

theorem dues_put (c : Replica) (entries : List (ContentId × WireState)) (e : EntityId)
    (id : ContentId) :
    (c.put entries).dues e id =
      if id ∈ (c.storeAll entries).2.map Prod.fst then [] else c.dues e id := by
  rw [put, dues_drainEach, dues_linkEach, dues_of_waiting (waiting_storeAll c entries)]

theorem id?_put (c : Replica) (entries : List (ContentId × WireState))
    (h : c.arena.id? n = some id) : (c.put entries).arena.id? n = some id := by
  obtain ⟨state, hstate, hid⟩ := Option.map_eq_some_iff.mp h
  rw [Arena.id?, put, state?_drainEach, state?_linkEach,
    (stored_storeAll c entries).grows.state n state hstate, Option.map_some, hid]

theorem changesFor_put (h : c.OnlyShows e)
    (hdistinct : (c.storeAll entries).2.Pairwise fun s t => s.1 ≠ t.1) :
    (c.put entries).changesFor e =
      c.changesFor e ++
        (c.newsOf e (c.storeAll entries).2).map fun s => ⟨.entity e, s.2, .show⟩ := by
  have hdues (id : ContentId) :
      ((c.storeAll entries).1.linkEach (c.storeAll entries).2).dues e id = c.dues e id := by
    rw [dues_linkEach, dues_of_waiting (waiting_storeAll c entries)]
  have honly : ((c.storeAll entries).1.linkEach (c.storeAll entries).2).OnlyShows e :=
    h.of_dues fun id callback hmem => hdues id ▸ hmem
  have hchanges : ((c.storeAll entries).1.linkEach (c.storeAll entries).2).changesFor e =
      c.changesFor e :=
    changesFor_of_updates ((updates_linkEach _ _).trans (updates_storeAll c entries)) e
  rw [put, changesFor_drainEach honly hdistinct, hchanges]
  simp only [newsOf, hdues]

theorem find?_put_of_mem (hdistinct : entries.Pairwise fun a b => a.1 ≠ b.1) :
    ∀ s ∈ (c.storeAll entries).2, (c.put entries).find? s.1 = some s.2 := by
  intro s hs
  rw [find?_put]
  exact (find?_storeAll hdistinct).2 s hs

/-- An id that was unknown is known now exactly if it is among the stored ones. -/
theorem find?_put_eq_none_iff (hdistinct : entries.Pairwise fun a b => a.1 ≠ b.1)
    (hunknown : c.find? id = none) :
    (c.put entries).find? id = none ↔ id ∉ (c.storeAll entries).2.map Prod.fst := by
  constructor
  · intro hnone hmem
    obtain ⟨s, hs, rfl⟩ := List.mem_map.mp hmem
    rw [find?_put_of_mem hdistinct s hs] at hnone
    cases hnone
  · intro hmem
    rw [find?_put, find?_storeAll_of_not_mem c entries hmem, hunknown]

/-- What is stored serves the bindings to it, in the order of the entries. -/
theorem serves_put (honly : c.OnlyShows e) (howes : ∀ id, c.Owes e id → c.find? id = none)
    (hascending : entries.Pairwise fun a b => a.1.hash < b.1.hash) :
    c.Serves (c.put entries) e none (c.newsOf e (c.storeAll entries).2) := by
  have hkeys : (entries.map Prod.fst).Pairwise fun a b => a.hash < b.hash :=
    List.pairwise_map.mpr hascending
  have hless : (c.storeAll entries).2.Pairwise fun s t => s.1.hash < t.1.hash := by
    have hstored := hkeys.sublist (storeAll_sublist c entries)
    rwa [List.pairwise_map] at hstored
  have hdistinct : entries.Pairwise fun a b => a.1 ≠ b.1 :=
    hascending.imp ContentId.ne_of_hash_lt
  have hstored (id : ContentId) (hid : c.Owes e id) :
      (c.put entries).find? id = none ↔ id ∉ (c.storeAll entries).2.map Prod.fst :=
    find?_put_eq_none_iff hdistinct (howes id hid)
  refine ⟨fun n id => id?_put c entries, ?_, fun id => ?_,
    changesFor_put honly (hless.imp ContentId.ne_of_hash_lt),
    fun s hs => find?_put_of_mem hdistinct s (mem_newsOf.mp hs).1, ascending_newsOf c e hless,
    fun id => ?_⟩
  · refine honly.of_dues fun id callback hmem => ?_
    rw [dues_put] at hmem
    split at hmem
    · exact absurd hmem List.not_mem_nil
    · exact hmem
  · rw [Owes, dues_put, or_iff_left (by simp)]
    constructor
    · intro hne
      split at hne
      · exact absurd rfl hne
      · next hmem => exact ⟨hne, (hstored id hne).mpr hmem⟩
    · rintro ⟨hne, hnone⟩
      rwa [if_neg ((hstored id hne).mp hnone)]
  · rw [or_iff_left (by simp), List.mem_map]
    constructor
    · rintro ⟨s, hs, rfl⟩
      obtain ⟨hmem, hne⟩ := mem_newsOf.mp hs
      exact ⟨hne, by rw [find?_put_of_mem hdistinct s hmem]; rfl⟩
    · rintro ⟨hne, hknown⟩
      have hmem : id ∈ (c.storeAll entries).2.map Prod.fst := by
        by_contra hmem
        rw [(hstored id hne).mpr hmem] at hknown
        cases hknown
      obtain ⟨s, hs, rfl⟩ := List.mem_map.mp hmem
      exact ⟨s, mem_newsOf.mpr ⟨hs, hne⟩, rfl⟩

/-! ## Other steps -/

/-- What neither changes the entity's icon nor waits to, and makes nothing known, serves nothing. -/
theorem serves_of_same (honly : c.OnlyShows e) (howes : ∀ id, c.Owes e id → c.find? id = none)
    (harena : c'.arena = c.arena) (hchanges : c'.changesFor e = c.changesFor e)
    (hdues : ∀ id, c'.dues e id = c.dues e id)
    (hknown : ∀ id, c.find? id = none → c'.find? id = none) : c.Serves c' e none [] := by
  refine ⟨fun n id hn => harena ▸ hn, ?_, fun id => ?_, ?_, by simp, .nil, fun id => ?_⟩
  · exact honly.of_dues fun id callback hmem => hdues id ▸ hmem
  · rw [Owes, hdues, or_iff_left (by simp)]
    exact ⟨fun hne => ⟨hne, hknown id (howes id hne)⟩, fun h => h.1⟩
  · exact hchanges.trans (List.append_nil _).symm
  · rw [or_iff_left (by simp)]
    refine ⟨fun hmem => absurd hmem List.not_mem_nil, fun h => ?_⟩
    rw [hknown id (howes id h.1)] at h
    cases h.2

theorem changesFor_run (c : Replica) (n : Serial) (h : callback.target? ≠ some (.entity e)) :
    (c.run n callback).changesFor e = c.changesFor e := by
  rw [changesFor, updates_run, List.filter_append, changesFor]
  cases callback with
  | notify tag => exact List.append_nil _
  | link parent slot => exact List.append_nil _
  | update target change =>
      have hother : target ≠ .entity e := fun heq => h (congrArg some heq)
      simp [Callback.update?, hother]

theorem serves_load (honly : c.OnlyShows e) (howes : ∀ id, c.Owes e id → c.find? id = none)
    (id : ContentId) (hlink : ∀ p k, callback ≠ .link p k)
    (htarget : callback.target? ≠ some (.entity e)) : c.Serves (c.load id callback) e none [] := by
  obtain ⟨harena, hknown⟩ := load_unchanged hlink c id
  refine serves_of_same honly howes harena ?_ (fun other => ?_) fun other hnone => ?_
  · cases hfound : c.find? id with
    | none => rw [load_of_unknown hfound]; rfl
    | some n => rw [load_of_find? hfound, changesFor_run c n htarget]
  · cases hfound : c.find? id with
    | none =>
        rw [load_of_unknown hfound, dues_wait, if_neg fun h => htarget h.2, List.append_nil]
    | some n => rw [load_of_find? hfound, dues_of_waiting (waiting_run c n callback)]
  · rwa [find?, hknown]

theorem serves_turfIcon (honly : c.OnlyShows e) (howes : ∀ id, c.Owes e id → c.find? id = none)
    (turf : TurfId) : c.Serves (c.turfIcon turf).1 e none [] := by
  obtain ⟨harena, hknown⟩ := ask_unchanged c (.turfIcon turf)
  refine serves_of_same honly howes harena ?_ ?_ fun id hnone => ?_
  · rw [turfIcon]
    split
    · rfl
    · rw [makeTurf]
      split <;> rfl
  · intro id
    rw [turfIcon]
    split
    · rfl
    · rw [makeTurf]
      split
      · rfl
      · refine (dues_wait c turf.content (.update (.turf turf) .show) e id).trans ?_
        rw [if_neg, List.append_nil]
        rintro ⟨-, htarget⟩
        cases htarget
  · change (c.ask (.turfIcon turf)).known[id]? = none
    rwa [hknown]

theorem serves_sharedCopy (honly : c.OnlyShows e)
    (howes : ∀ id, c.Owes e id → c.find? id = none) (id : ContentId) :
    c.Serves (c.sharedCopy id).1 e none [] := by
  have hsame : ∃ copies count, (c.sharedCopy id).1 = { c with copies, copyCount := count } := by
    rw [sharedCopy]
    split
    · exact ⟨_, _, rfl⟩
    · split <;> exact ⟨_, _, rfl⟩
  obtain ⟨copies, count, heq⟩ := hsame
  rw [heq]
  exact serves_of_same honly howes rfl rfl (fun _ => rfl) fun _ h => h

theorem serves_remove (honly : c.OnlyShows e) (howes : ∀ id, c.Owes e id → c.find? id = none)
    (id : ContentId) : c.Serves (c.remove id) e none [] := by
  refine serves_of_same honly howes rfl rfl (fun _ => rfl) fun other hnone => ?_
  rw [find?_remove]
  split
  · rfl
  · exact hnone

/-! ## Binding -/

/-- A binding to an unknown id is owed. -/
theorem serves_bind_of_unknown (honly : c.OnlyShows e)
    (howes : ∀ id, c.Owes e id → c.find? id = none) (hunknown : c.find? id = none) :
    c.Serves (c.bind e id) e (some id) [] := by
  have hbind : c.bind e id = c.wait id (.update (.entity e) .show) := load_of_unknown hunknown _
  have hdues (other : ContentId) : (c.bind e id).dues e other =
      c.dues e other ++ if other = id then [.update (.entity e) .show] else [] := by
    rw [hbind, dues_wait]
    simp [Callback.target?]
  have hfind : (c.bind e id).find? = c.find? := by rw [hbind]; rfl
  -- neither the new binding nor an old one is to a known id
  have hnone : ∀ other, c.Owes e other ∨ some id = some other → c.find? other = none := by
    rintro other (howed | heq)
    · exact howes other howed
    · rw [← Option.some.inj heq, hunknown]
  refine ⟨fun n other hn => ?_, fun other callback hmem => ?_, fun other => ?_, ?_, by simp,
    .nil, fun other => ?_⟩
  · rw [hbind]
    exact hn
  · rw [hdues, List.mem_append] at hmem
    obtain hmem | hmem := hmem
    · exact honly other callback hmem
    · split at hmem
      · exact List.mem_singleton.mp hmem
      · exact absurd hmem List.not_mem_nil
  · rw [hfind, and_iff_left_of_imp (hnone other), Owes, hdues]
    by_cases heq : other = id
    · simp [heq]
    · simp [heq, Ne.symm heq, Owes]
  · rw [hbind]
    exact (List.append_nil _).symm
  · rw [hfind]
    refine ⟨fun hmem => absurd hmem List.not_mem_nil, fun hother => ?_⟩
    rw [hnone other hother.1] at hother
    cases hother.2

/-- A binding to a known id is served at once. -/
theorem serves_bind_of_known (honly : c.OnlyShows e)
    (howes : ∀ id, c.Owes e id → c.find? id = none) (hn : c.find? id = some n) :
    c.Serves (c.bind e id) e (some id) [(id, n)] := by
  have hbind : c.bind e id = c.run n (.update (.entity e) .show) := load_of_find? hn _
  have hdues (other : ContentId) : (c.bind e id).dues e other = c.dues e other := by
    rw [hbind]
    rfl
  have hfind : (c.bind e id).find? = c.find? := by rw [hbind]; rfl
  refine ⟨fun m other hm => ?_, ?_, fun other => ?_, ?_, fun s hs => ?_,
    List.pairwise_singleton _ _, fun other => ?_⟩
  · rw [hbind]
    exact hm
  · exact honly.of_dues fun other callback hmem => hdues other ▸ hmem
  · rw [Owes, hdues, hfind]
    constructor
    · exact fun hne => ⟨Or.inl hne, howes other hne⟩
    · rintro ⟨hne | heq, hnone⟩
      · exact hne
      · rw [← Option.some.inj heq, hn] at hnone
        cases hnone
  · rw [hbind, changesFor, updates_run, List.filter_append]
    simp [Callback.update?, changesFor]
  · rw [hfind, List.mem_singleton.mp hs, hn]
  · rw [hfind]
    constructor
    · intro hmem
      obtain rfl : other = id := List.mem_singleton.mp hmem
      exact ⟨Or.inr rfl, by rw [hn]; rfl⟩
    · rintro ⟨howed | heq, hknown⟩
      · rw [howes other howed] at hknown
        cases hknown
      · exact List.mem_singleton.mpr (Option.some.inj heq).symm

/-! ## Every step -/

theorem Settling.find?_eq_none_of_owes (h : c.Settling [] []) (howes : c.Owes e id) :
    c.find? id = none := by
  by_contra hknown
  refine howes ?_
  rw [dues, h.awaited id (Option.isSome_iff_ne_none.mpr hknown) List.not_mem_nil]
  rfl

/-- A step that does not animate an entity serves the bindings of the entity whose ids are known
after it. -/
theorem Settling.serves_step (h : c.Settling [] []) (honly : c.OnlyShows e) {s : Step}
    (hspares : s.Spares e) : ∃ news, c.Serves (c.step s) e (s.binds? e) news := by
  have howes : ∀ id, c.Owes e id → c.find? id = none := fun id => h.find?_eq_none_of_owes
  cases s with
  | message m =>
      cases m with
      | snapshot table =>
          -- what is forgotten before the table is stored concerns no binding
          have hput := serves_put (c := c.forgetAll) (e := e) honly
            (fun id _ => c.find?_forgetAll id) table.ascending
          exact ⟨_, hput.named, hput.onlyShows, hput.owes, hput.changes, hput.known,
            hput.ascending, hput.served⟩
      | added added =>
          have hput := serves_put honly howes
            (List.pairwise_singleton _ (added.id, added.appearance))
          rw [← insert_eq_put] at hput
          exact ⟨_, hput⟩
      | removed removed => exact ⟨_, serves_remove honly howes removed.id⟩
      | animate a =>
          refine ⟨_, serves_load honly howes a.appearance (by simp) ?_⟩
          exact fun htarget => hspares a rfl (Option.some.inj htarget)
  | request q =>
      cases q with
      | load id tag => exact ⟨_, serves_load honly howes id (by simp) (by simp [Callback.target?])⟩
      | bind entity id =>
          by_cases heq : entity = e
          · subst heq
            rw [Step.binds?, if_pos rfl]
            cases hfound : c.find? id with
            | none => exact ⟨_, serves_bind_of_unknown honly howes hfound⟩
            | some n => exact ⟨_, serves_bind_of_known honly howes hfound⟩
          · rw [Step.binds?, if_neg heq]
            exact ⟨_, serves_load honly howes id (by simp) (by simpa [Callback.target?] using heq)⟩
      | turfIcon turf => exact ⟨_, serves_turfIcon honly howes turf⟩
      | sharedCopy id => exact ⟨_, serves_sharedCopy honly howes id⟩

end Replica
end AppearanceSync
