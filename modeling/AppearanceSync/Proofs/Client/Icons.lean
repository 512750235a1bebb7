import AppearanceSync.Client
import AppearanceSync.Proofs.Entity
import AppearanceSync.Proofs.Replica.Bindings

/-!
# Icons of entities

Steps of a client's replica leave changes of icons behind, and a pass carries them out in order.
What an entity's icon will show is therefore the last change for it among those that are left, or
else what it shows already; a pass does not change that, and a step changes it to the id that the
step serves last.
-/

namespace AppearanceSync

theorem Arena.id_picture? (a : Arena) (n : Serial) : (a.picture? n).map (·.id) = a.id? n := by
  rw [picture?, Option.map_map, id?, state?, Option.map_map]
  rfl

namespace Client

/-- Something happens to the replica, or changes of icons are carried out at some time. -/
inductive Act
  | step (s : Step)
  | pass (now : Span)

/-- The client after an act. -/
def act (c : Client) : Act → Client
  | .step s => { c with replica := c.replica.step s }
  | .pass now => changeIcons { c with now }

/-- The client after acts. -/
def run (c : Client) (acts : List Act) : Client := acts.foldl act c

/-- The id to which an act binds an entity, if it does. -/
def Act.binds? (e : EntityId) : Act → Option ContentId
  | .step s => s.binds? e
  | .pass _ => none

/-- The act does not animate the entity. -/
def Act.Spares (e : EntityId) (a : Act) : Prop := ∀ s, a = .step s → s.Spares e

variable {c c' : Client} {e : EntityId} {u : IconUpdate} {us : List IconUpdate} {s : Step}
  {bound : Option ContentId} {news : List (ContentId × Serial)}

/-- The id of the appearance of an entity's icon. -/
def appearance? (c : Client) (e : EntityId) : Option ContentId :=
  (c.icons.find? e).bind fun icon => icon.shown.map (·.id)

/-- The ids that these changes let the entity's icon show. -/
def shownBy (c : Client) (e : EntityId) (us : List IconUpdate) : List ContentId :=
  (us.filter fun u => u.target = .entity e).filterMap fun u => c.replica.arena.id? u.appearance

/-- The id of the appearance of an entity's icon once the changes that are left are carried out. -/
def aim (c : Client) (e : EntityId) : Option ContentId :=
  (c.shownBy e c.replica.updates).getLast?.or (c.appearance? e)

/-- The change only shows an appearance that has been received, if it is for the entity. -/
def Plain (c : Client) (e : EntityId) (u : IconUpdate) : Prop :=
  u.target = .entity e → u.change = .show ∧ (c.replica.arena.id? u.appearance).isSome = true

/-! ## Carrying out changes -/

theorem change_replica (c : Client) (u : IconUpdate) :
    ∃ turfs, (c.change u).replica = { c.replica with turfs } := by
  rw [change]
  split
  · exact ⟨_, rfl⟩
  · split <;> exact ⟨_, rfl⟩

theorem find?_change (c : Client) (u : IconUpdate) (e : EntityId) :
    (c.change u).icons.find? e =
      if u.target = .entity e then (c.icons.find? e).map (c.replica.changeIcon u c.now)
      else c.icons.find? e := by
  rw [change]
  cases htarget : u.target with
  | entity id =>
      simp only [Target.entity.injEq]
      rw [Table.find?_modify]
      exact if_congr eq_comm rfl rfl
  | turf turf =>
      rw [if_neg (by simp)]
      dsimp only
      cases c.replica.turf? turf <;> rfl

theorem appearance?_change_of_ne (h : u.target ≠ .entity e) :
    (c.change u).appearance? e = c.appearance? e := by
  rw [appearance?, find?_change, if_neg h, appearance?]

/-- A change that shows an appearance gives the icon this appearance. -/
theorem appearance?_change (hrow : (c.icons.find? e).isSome = true) (hplain : c.Plain e u)
    (htarget : u.target = .entity e) :
    (c.change u).appearance? e = c.replica.arena.id? u.appearance := by
  obtain ⟨icon, hicon⟩ := Option.isSome_iff_exists.mp hrow
  obtain ⟨hshow, hsome⟩ := hplain htarget
  have hid := c.replica.arena.id_picture? u.appearance
  rw [appearance?, find?_change, if_pos htarget, hicon, Option.map_some, Option.bind_some,
    Replica.changeIcon]
  cases hpicture : c.replica.arena.picture? u.appearance with
  | none =>
      rw [hpicture] at hid
      rw [← hid] at hsome
      cases hsome
  | some picture =>
      rw [hpicture] at hid
      rw [hshow, ← hid]
      rfl

theorem shownBy_cons (c : Client) (e : EntityId) (u : IconUpdate) (us : List IconUpdate) :
    c.shownBy e (u :: us) =
      (if u.target = .entity e then (c.replica.arena.id? u.appearance).toList else []) ++
        c.shownBy e us := by
  rw [shownBy, List.filter_cons, shownBy]
  by_cases h : u.target = .entity e
  · simp only [h, decide_true, if_true, List.filterMap_cons]
    cases c.replica.arena.id? u.appearance <;> rfl
  · simp only [h, decide_false, Bool.false_eq_true, if_false, List.nil_append]

/-- After changes an icon has the appearance that the last change for it shows. -/
theorem appearance?_changes (hrow : (c.icons.find? e).isSome = true)
    (hplain : ∀ u ∈ us, c.Plain e u) :
    (us.foldl change c).appearance? e = (c.shownBy e us).getLast?.or (c.appearance? e) := by
  induction us generalizing c with
  | nil => rfl
  | cons u us ih =>
      obtain ⟨turfs, hreplica⟩ := change_replica c u
      have harena : (c.change u).replica.arena = c.replica.arena := by rw [hreplica]
      have hrow' : ((c.change u).icons.find? e).isSome = true := by
        rw [find?_change]
        split
        · rwa [Option.isSome_map]
        · exact hrow
      have hplain' : ∀ v ∈ us, (c.change u).Plain e v := by
        intro v hv
        rw [Plain, harena]
        exact hplain v (List.mem_cons_of_mem u hv)
      have hshown : (c.change u).shownBy e us = c.shownBy e us := by
        rw [shownBy, harena, shownBy]
      rw [List.foldl_cons, ih hrow' hplain', hshown, shownBy_cons]
      by_cases htarget : u.target = .entity e
      · have hnow := appearance?_change hrow (hplain u List.mem_cons_self) htarget
        obtain ⟨id, hid⟩ := Option.isSome_iff_exists.mp (hplain u List.mem_cons_self htarget).2
        rw [hnow, if_pos htarget, hid, Option.toList_some, List.singleton_append,
          List.getLast?_cons]
        cases (c.shownBy e us).getLast? <;> rfl
      · rw [if_neg htarget, List.nil_append, appearance?_change_of_ne htarget]

theorem replica_changes (c : Client) (us : List IconUpdate) :
    ∃ turfs, (us.foldl change c).replica = { c.replica with turfs } := by
  induction us generalizing c with
  | nil => exact ⟨_, rfl⟩
  | cons u us ih =>
      obtain ⟨turfs, hhead⟩ := change_replica c u
      obtain ⟨turfs', hrest⟩ := ih (c.change u)
      refine ⟨turfs', ?_⟩
      rw [List.foldl_cons, hrest, hhead]

theorem isSome_find?_changes (c : Client) (us : List IconUpdate) (e : EntityId) :
    ((us.foldl change c).icons.find? e).isSome = (c.icons.find? e).isSome := by
  induction us generalizing c with
  | nil => rfl
  | cons u us ih =>
      rw [List.foldl_cons, ih, find?_change]
      split
      · rw [Option.isSome_map]
      · rfl

/-! ## Acts -/

/-- The entity has an icon, which is animated by nothing that is left or waits. -/
structure Bindable (c : Client) (e : EntityId) : Prop where
  settling : c.replica.Settling [] []
  onlyShows : c.replica.OnlyShows e
  plain : ∀ u ∈ c.replica.updates, c.Plain e u
  row : (c.icons.find? e).isSome = true

/-- From the first client to the second, the bindings of an entity to these ids have been served,
in this order.  They are those whose id is known now. -/
structure Serves (c c' : Client) (e : EntityId) (bound : Option ContentId)
    (ids : List ContentId) : Prop where
  bindable : c'.Bindable e
  aim : c'.aim e = ids.getLast?.or (c.aim e)
  ascending : ids.Pairwise fun a b => a.hash ≤ b.hash
  served : ∀ id, id ∈ ids ↔
    (c.replica.Owes e id ∨ bound = some id) ∧ (c'.replica.find? id).isSome = true
  owes : ∀ id, c'.replica.Owes e id ↔
    (c.replica.Owes e id ∨ bound = some id) ∧ c'.replica.find? id = none

theorem replica_pass (c : Client) (now : Span) :
    ∃ turfs, (c.act (.pass now)).replica = { c.replica with updates := [], turfs } :=
  replica_changes { c with now, replica := { c.replica with updates := [] } } c.replica.updates

/-- A pass carries out the changes that were left. -/
theorem Bindable.appearance?_pass (h : c.Bindable e) (now : Span) :
    (c.act (.pass now)).appearance? e = c.aim e :=
  appearance?_changes (c := { c with now, replica := { c.replica with updates := [] } }) h.row
    h.plain

theorem isSome_find?_pass (c : Client) (now : Span) (e : EntityId) :
    ((c.act (.pass now)).icons.find? e).isSome = (c.icons.find? e).isSome :=
  isSome_find?_changes { c with now, replica := { c.replica with updates := [] } }
    c.replica.updates e

/-- A pass serves no binding. -/
theorem Bindable.serves_pass (h : c.Bindable e) (now : Span) :
    c.Serves (c.act (.pass now)) e none [] := by
  obtain ⟨turfs, hreplica⟩ := replica_pass c now
  have howes (id : ContentId) : (c.act (.pass now)).replica.Owes e id ↔ c.replica.Owes e id := by
    rw [hreplica]
    rfl
  have hfind (id : ContentId) : (c.act (.pass now)).replica.find? id = c.replica.find? id := by
    rw [hreplica]
    rfl
  have hleft : (c.act (.pass now)).replica.updates = [] := by rw [hreplica]
  refine ⟨⟨?_, ?_, ?_, ?_⟩, ?_, .nil, fun id => ?_, fun id => ?_⟩
  · rw [hreplica]
    exact h.settling.of_eq rfl rfl rfl rfl
  · rw [hreplica]
    exact h.onlyShows
  · rw [hleft]
    exact fun u hu => absurd hu List.not_mem_nil
  · rw [isSome_find?_pass]
    exact h.row
  · rw [aim, hleft, h.appearance?_pass]
    rfl
  · rw [hfind, or_iff_left (by simp)]
    refine ⟨fun hmem => absurd hmem List.not_mem_nil, fun hid => ?_⟩
    rw [h.settling.find?_eq_none_of_owes hid.1] at hid
    cases hid.2
  · rw [howes, hfind, or_iff_left (by simp)]
    exact ⟨fun hid => ⟨hid, h.settling.find?_eq_none_of_owes hid⟩, fun hid => hid.1⟩

/-- A change that was left before a step is the same after it. -/
theorem Bindable.id?_step (h : c.Bindable e)
    (hnews : c.replica.Serves (c.replica.step s) e bound news)
    (hu : u ∈ c.replica.changesFor e) :
    u.change = .show ∧ ∃ id, c.replica.arena.id? u.appearance = some id ∧
      (c.replica.step s).arena.id? u.appearance = some id := by
  obtain ⟨hmem, htarget⟩ := List.mem_filter.mp hu
  obtain ⟨hshow, hsome⟩ := h.plain u hmem (of_decide_eq_true htarget)
  obtain ⟨id, hid⟩ := Option.isSome_iff_exists.mp hsome
  exact ⟨hshow, id, hid, hnews.named _ _ hid⟩

/-- After a step the entity's icon is left with what it was left with before and the news. -/
theorem Bindable.shownBy_step (h : c.Bindable e)
    (hnews : c.replica.Serves (c.replica.step s) e bound news) :
    (c.act (.step s)).shownBy e (c.replica.step s).updates =
      c.shownBy e c.replica.updates ++ news.map Prod.fst := by
  have hold : (c.replica.changesFor e).filterMap
      (fun u => (c.replica.step s).arena.id? u.appearance) =
        (c.replica.changesFor e).filterMap fun u => c.replica.arena.id? u.appearance := by
    refine List.filterMap_congr fun u hu => ?_
    obtain ⟨-, id, hbefore, hafter⟩ := h.id?_step hnews hu
    rw [hbefore, hafter]
  have hnew : (news.map fun t => (⟨.entity e, t.2, .show⟩ : IconUpdate)).filterMap
      (fun u => (c.replica.step s).arena.id? u.appearance) = news.map Prod.fst := by
    rw [List.filterMap_map, ← List.filterMap_eq_map]
    refine List.filterMap_congr fun t ht => ?_
    exact (h.settling.step s).named t.1 t.2 (hnews.known t ht)
  change ((c.replica.step s).changesFor e).filterMap
    (fun u => (c.replica.step s).arena.id? u.appearance) = _
  rw [hnews.changes, List.filterMap_append, hnew]
  exact congrArg (· ++ news.map Prod.fst) hold

theorem Bindable.plain_step (h : c.Bindable e)
    (hnews : c.replica.Serves (c.replica.step s) e bound news) :
    ∀ u ∈ (c.replica.step s).updates, (c.act (.step s)).Plain e u := by
  intro u hu htarget
  have hmem : u ∈ (c.replica.step s).changesFor e :=
    List.mem_filter.mpr ⟨hu, decide_eq_true htarget⟩
  rw [hnews.changes, List.mem_append] at hmem
  obtain hold | hnew := hmem
  · obtain ⟨hshow, id, -, hafter⟩ := h.id?_step hnews hold
    exact ⟨hshow, Option.isSome_iff_exists.mpr ⟨id, hafter⟩⟩
  · obtain ⟨t, ht, rfl⟩ := List.mem_map.mp hnew
    have hnamed := (h.settling.step s).named t.1 t.2 (hnews.known t ht)
    exact ⟨rfl, Option.isSome_iff_exists.mpr ⟨t.1, hnamed⟩⟩

/-- A step that does not animate the entity serves the bindings whose ids are known after it. -/
theorem Bindable.serves_step (h : c.Bindable e) (hspares : s.Spares e) :
    ∃ ids, c.Serves (c.act (.step s)) e (s.binds? e) ids := by
  obtain ⟨news, hnews⟩ := h.settling.serves_step h.onlyShows hspares
  refine ⟨news.map Prod.fst, ⟨h.settling.step s, hnews.onlyShows, h.plain_step hnews, h.row⟩, ?_,
    ?_, hnews.served, hnews.owes⟩
  · have hshown := h.shownBy_step hnews
    change ((c.act (.step s)).shownBy e (c.replica.step s).updates).getLast?.or
      (c.appearance? e) = _
    rw [hshown, List.getLast?_append, Option.or_assoc, aim]
  · rw [List.pairwise_map]
    exact hnews.ascending

/-- So does every act. -/
theorem Bindable.serves_act (h : c.Bindable e) {a : Act} (hspares : a.Spares e) :
    ∃ ids, c.Serves (c.act a) e (a.binds? e) ids := by
  cases a with
  | step s => exact h.serves_step (hspares s rfl)
  | pass now => exact ⟨[], h.serves_pass now⟩

theorem bindable_of_empty {tileSize : ℕ} (hnew : c.replica = .empty tileSize)
    (hrow : (c.icons.find? e).isSome = true) : c.Bindable e := by
  refine ⟨?_, fun id callback hmem => ?_, fun u hu => ?_, hrow⟩
  · rw [hnew]
    exact Replica.settling_empty tileSize
  · rw [hnew] at hmem
    simp [Replica.dues, Replica.waitingFor, Replica.empty] at hmem
  · rw [hnew] at hu
    exact absurd hu List.not_mem_nil

theorem run_concat (c : Client) (acts : List Act) (a : Act) :
    c.run (acts ++ [a]) = (c.run acts).act a := List.foldl_append

end Client
end AppearanceSync
