import AppearanceSync.Proofs.Replica.Pending
import AppearanceSync.Proofs.Replica.Reports
import AppearanceSync.Proofs.Replica.Tracking

/-!
# Callbacks run once

Each callback runs as soon as its id is known, at once if it is known already, and
never again; callbacks for one id run in the order in which they were registered.
A callback is given what is known under its id at that moment, of which every slot
is filled whose own id is known.

What a step adds to the records of a watched replica is said by `Advance`.  What a
whole run does then comes down to two facts: nothing waits for a known id between
steps, and no step runs a callback for an id that is unknown after the step.
-/

namespace AppearanceSync
namespace Replica

variable {c c' c'' : Replica} {id : ContentId} {n m : Serial} {k : ℕ}

/-! ## Filled slots -/

/-- Every slot of the instance whose id is known is filled. -/
def Linked (c : Replica) (n : Serial) : Prop :=
  ∀ k ref, c.arena.slotAt? n k = some (ref, none) → c.find? ref = none

/-- The second replica knows what the first knows, and its empty slots were empty before. -/
structure Fills (c c' : Replica) : Prop where
  find? : ∀ id, c'.find? id = c.find? id
  empty : ∀ n k id, c'.arena.slotAt? n k = some (id, none) → c.arena.slotAt? n k = some (id, none)

theorem Fills.refl (c : Replica) : c.Fills c := ⟨fun _ => rfl, fun _ _ _ h => h⟩

theorem Fills.trans (h : c.Fills c') (h' : c'.Fills c'') : c.Fills c'' :=
  ⟨fun id => (h'.find? id).trans (h.find? id),
    fun n k id hslot => h.empty n k id (h'.empty n k id hslot)⟩

theorem Fills.linked (h : c.Fills c') (hn : c.Linked n) : c'.Linked n := by
  intro k ref hslot
  rw [h.find?]
  exact hn k ref (h.empty n k ref hslot)

theorem empty_of_serveAll {a : Arena} (callbacks : List Callback)
    (h : (callbacks.foldl (fun a callback => a.serve m callback) a).slotAt? n k = some (id, none)) :
    a.slotAt? n k = some (id, none) := by
  rw [Arena.slotAt?_serveAll] at h
  obtain ⟨s, hslot, heq⟩ := Option.map_eq_some_iff.mp h
  split at heq
  · cases heq
  · rw [hslot, heq]

theorem fills_run (c : Replica) (m : Serial) (callback : Callback) :
    c.Fills (c.run m callback) := by
  obtain ⟨updates, notices, heq⟩ := run_eq c m callback
  rw [heq]
  exact ⟨fun _ => rfl, fun n k id => empty_of_serveAll [callback]⟩

theorem fills_drain (c : Replica) (id : ContentId) (m : Serial) : c.Fills (c.drain id m) := by
  refine ⟨find?_drain c id m, fun n k other hslot => ?_⟩
  rw [arena_drain] at hslot
  exact empty_of_serveAll _ hslot

theorem fills_link (c : Replica) (m : Serial) : c.Fills (c.link m) := by
  refine ⟨find?_link c m, fun n k id hslot => ?_⟩
  by_cases hn : n = m
  · rw [hn, slotAt?_link] at hslot
    obtain ⟨⟨ref, target⟩, hold, heq⟩ := Option.map_eq_some_iff.mp hslot
    obtain ⟨rfl, htarget⟩ := Prod.mk.inj heq
    obtain ⟨rfl, -⟩ := Option.or_eq_none_iff.mp htarget
    rw [hn, hold]
  · rwa [slotAt?_link_of_ne c hn] at hslot

theorem linked_link (c : Replica) (n : Serial) : (c.link n).Linked n := by
  intro k ref hslot
  rw [slotAt?_link] at hslot
  obtain ⟨⟨r, target⟩, -, heq⟩ := Option.map_eq_some_iff.mp hslot
  obtain ⟨rfl, htarget⟩ := Prod.mk.inj heq
  rw [find?_link]
  exact (Option.or_eq_none_iff.mp htarget).2

theorem fills_linkEach (c : Replica) (stored : List (ContentId × Serial)) :
    c.Fills (c.linkEach stored) := by
  induction stored generalizing c with
  | nil => exact .refl c
  | cons s stored ih => exact (fills_link c s.2).trans (ih (c.link s.2))

theorem find?_drainEach (c : Replica) (stored : List (ContentId × Serial)) (id : ContentId) :
    (c.drainEach stored).find? id = c.find? id := by
  induction stored generalizing c with
  | nil => rfl
  | cons s stored ih => exact (ih (c.drain s.1 s.2)).trans (find?_drain c s.1 s.2 id)

theorem waitingFor_drainEach (c : Replica) (stored : List (ContentId × Serial))
    (id : ContentId) :
    (c.drainEach stored).waitingFor id =
      if id ∈ stored.map Prod.fst then [] else c.waitingFor id := by
  induction stored generalizing c with
  | nil => rfl
  | cons s stored ih =>
      refine (ih (c.drain s.1 s.2)).trans ?_
      rw [waitingFor_drain, List.map_cons]
      by_cases hs : id = s.1
      · simp [hs]
      · simp only [hs, if_false, List.mem_cons, false_or]

theorem linked_linkEach (c : Replica) {stored : List (ContentId × Serial)} :
    ∀ s ∈ stored, (c.linkEach stored).Linked s.2 := by
  induction stored generalizing c with
  | nil => exact fun s hs => absurd hs List.not_mem_nil
  | cons t stored ih =>
      intro s hs
      rcases List.mem_cons.mp hs with rfl | hs
      · exact (fills_linkEach (c.link s.2) stored).linked (linked_link c s.2)
      · exact ih (c.link t.2) s hs

theorem Settling.linked (h : c.Settling [] []) (n : Serial) : c.Linked n := by
  intro k ref hslot
  exact (h.empty n k ref hslot List.not_mem_nil).1.resolve_right List.not_mem_nil

theorem Settling.step (h : c.Settling [] []) (s : Step) : (c.step s).Settling [] [] := by
  cases s with
  | message m => exact h.apply m
  | request q => exact h.ask q

theorem waiting_run (c : Replica) (n : Serial) (callback : Callback) :
    (c.run n callback).waiting = c.waiting := by
  obtain ⟨updates, notices, heq⟩ := run_eq c n callback
  rw [heq]

theorem waitingFor_of_waiting (h : c'.waiting = c.waiting) (id : ContentId) :
    c'.waitingFor id = c.waitingFor id := by
  rw [waitingFor, h, waitingFor]

theorem pendingCount_of_waiting (h : c'.waiting = c.waiting) :
    c'.pendingCount = c.pendingCount := by
  rw [pendingCount, h, pendingCount]

theorem waiting_storeAll (c : Replica) (entries : List (ContentId × WireState)) :
    (c.storeAll entries).1.waiting = c.waiting := by
  obtain ⟨arena, known, copies, heq⟩ := storeAll_eq c entries
  rw [heq]

end Replica

/-- The callback was run with what was known under its id, after every slot had been
filled whose id was known. -/
def Run.Timely (r : Run) : Prop :=
  r.moment.find? r.id = some r.appearance ∧ r.moment.Linked r.appearance

namespace Watched

variable {w w' w'' : Watched} {id other : ContentId} {n : Serial} {callback : Callback}
  {stored : List (ContentId × Serial)}

/-! ## Records -/

/-- What was registered for an id is what was run for it, and then what waits for it. -/
structure Balanced (w : Watched) : Prop where
  each : ∀ id, w.registeredFor id = w.ranFor id ++ w.replica.waitingFor id
  total : w.registered.length = w.ran.length + w.replica.pendingCount

/-- The records have grown, by runs in time with what is known now; what these gave is kept. -/
structure Advance (w w' : Watched) : Prop where
  registered : w.registered <+: w'.registered
  ran : ∃ more, w.Reports w' more ∧
    ∀ r ∈ more, r.Timely ∧ w'.replica.find? r.id = some r.appearance
  balanced : w.Balanced → w'.Balanced

theorem Advance.trans (h : w.Advance w') (h' : w'.Advance w'')
    (hfind : ∀ id, w''.replica.find? id = w'.replica.find? id) : w.Advance w'' := by
  obtain ⟨more, hreports, hmore⟩ := h.ran
  obtain ⟨more', hreports', hmore'⟩ := h'.ran
  refine ⟨h.registered.trans h'.registered, ⟨more ++ more', hreports.trans hreports', ?_⟩,
    fun hw => h'.balanced (h.balanced hw)⟩
  intro r hr
  rcases List.mem_append.mp hr with hr | hr
  · rw [hfind]
    exact hmore r hr
  · exact hmore' r hr

/-- What changes neither the records nor what waits or is kept is an advance. -/
theorem advance_of_eq (w : Watched) {c : Replica} (hwaiting : c.waiting = w.replica.waiting)
    (hupdates : c.updates = w.replica.updates) (hnotices : c.notices = w.replica.notices) :
    w.Advance { w with replica := c } := by
  refine ⟨List.prefix_refl _, ⟨[], reports_of_eq rfl hupdates hnotices, by simp⟩,
    fun hw => ⟨fun id => ?_, ?_⟩⟩
  · rw [Replica.waitingFor_of_waiting hwaiting]
    exact hw.each id
  · rw [Replica.pendingCount_of_waiting hwaiting]
    exact hw.total

theorem Advance.refl (w : Watched) : w.Advance w := w.advance_of_eq rfl rfl rfl

theorem registeredFor_register (w : Watched) (id : ContentId) (callback : Callback)
    (other : ContentId) :
    (w.register id callback).registeredFor other =
      w.registeredFor other ++ if other = id then [callback] else [] := by
  rw [register, registeredFor, registeredFor, List.filterMap_append]
  congr 1
  by_cases heq : other = id
  · simp [heq]
  · simp [heq, Ne.symm heq]

theorem ranFor_append {more : List Run} (hran : w'.ran = w.ran ++ more)
    (hid : ∀ r ∈ more, r.id = id) (other : ContentId) :
    w'.ranFor other = w.ranFor other ++ if other = id then more.map Run.callback else [] := by
  rw [ranFor, ranFor, hran, List.filterMap_append]
  congr 1
  split
  · next heq =>
      subst heq
      rw [← List.filterMap_eq_map]
      exact List.filterMap_congr fun r hr => if_pos (hid r hr)
  · next hne =>
      rw [List.filterMap_eq_nil_iff]
      intro r hr
      exact if_neg fun heq => hne (heq.symm.trans (hid r hr))

theorem advance_wait (w : Watched) (id : ContentId) (callback : Callback) :
    w.Advance (w.wait id callback) := by
  refine ⟨List.prefix_append _ _, ⟨[], reports_of_eq rfl rfl rfl, by simp⟩,
    fun hw => ⟨fun other => ?_, ?_⟩⟩
  · refine (w.registeredFor_register id callback other).trans ?_
    rw [hw.each, List.append_assoc]
    exact congrArg (w.ranFor other ++ ·) (w.replica.waitingFor_wait id callback other).symm
  · change (w.registered ++ [(id, callback)]).length =
      w.ran.length + (w.replica.wait id callback).pendingCount
    rw [List.length_append, hw.total, Replica.pendingCount_wait]
    rfl

/-! ## Steps -/

theorem advance_load (w : Watched) (id : ContentId) (callback : Callback)
    (hsettling : w.replica.Settling [] []) : w.Advance (w.load id callback) := by
  cases hfound : w.replica.find? id with
  | none =>
      have hload : w.load id callback = w.wait id callback := by rw [load, hfound]
      rw [hload]
      exact w.advance_wait id callback
  | some n =>
      have hload : w.load id callback = (w.register id callback).run id n callback := by
        rw [load, hfound]
      generalize hlast : (⟨id, callback, n, w.replica⟩ : Run) = last
      have hregistered := w.registeredFor_register id callback
      have hreports : w.Reports ((w.register id callback).run id n callback) [last] := by
        have hrun := (w.register id callback).reports_run (hsettling.named id n hfound) callback
        rw [← hlast]
        exact ⟨hrun.ran, hrun.updates, hrun.notices⟩
      have hwaiting : ((w.register id callback).run id n callback).replica.waiting =
          w.replica.waiting := w.replica.waiting_run n callback
      rw [hload]
      refine ⟨List.prefix_append _ _, ⟨[last], hreports, ?_⟩, fun hw => ⟨fun other => ?_, ?_⟩⟩
      · intro r hr
        rw [List.mem_singleton.mp hr, ← hlast]
        have hfills := w.replica.fills_run n callback
        exact ⟨⟨hfound, hsettling.linked n⟩, (hfills.find? id).trans hfound⟩
      · -- nothing waits for a known id, so the callback comes next in both records
        have hid : ∀ r ∈ [last], r.id = id := by simp [← hlast]
        refine (hregistered other).trans ?_
        rw [ranFor_append hreports.ran hid, hw.each, Replica.waitingFor_of_waiting hwaiting]
        split
        · next heq =>
            rw [heq, hsettling.awaited id (by simp [hfound]) List.not_mem_nil, ← hlast]
            simp
        · simp
      · have htotal := hw.total
        change (w.registered ++ [(id, callback)]).length = _
        rw [hreports.ran, Replica.pendingCount_of_waiting hwaiting, List.length_append,
          List.length_append, htotal]
        simp only [List.length_singleton]
        omega

theorem advance_linkSlot (w : Watched) (n : Serial) (s : ContentId × ℕ) :
    w.Advance (w.linkSlot n s) := by
  rw [linkSlot]
  split
  · exact w.advance_of_eq rfl rfl rfl
  · exact w.advance_wait s.1 (.link n s.2)

theorem find?_linkSlot (w : Watched) (n : Serial) (s : ContentId × ℕ) (id : ContentId) :
    (w.linkSlot n s).replica.find? id = w.replica.find? id := by
  rw [linkSlot]
  split
  · exact (w.replica.fills_run _ _).find? id
  · rfl

theorem advance_link (w : Watched) (n : Serial) : w.Advance (w.link n) := by
  rw [link]
  split
  · exact List.foldlRecOn (motive := fun v => w.Advance v) _ _ (.refl w)
      fun v hv s _ => hv.trans (v.advance_linkSlot n s) (v.find?_linkSlot n s)
  · exact .refl w

theorem advance_linkEach (w : Watched) (stored : List (ContentId × Serial)) :
    w.Advance (w.linkEach stored) := by
  refine List.foldlRecOn (motive := fun v => w.Advance v) _ _ (.refl w) fun v hv s _ => ?_
  refine hv.trans (v.advance_link s.2) fun id => ?_
  rw [replica_link, Replica.find?_link]

/-- What is run with an instance is run while no slot is emptied. -/
theorem exists_runs (hid : w.replica.arena.id? n = some id) (callbacks : List Callback) :
    ∃ more, w.Reports (callbacks.foldl (fun w callback => w.run id n callback) w) more ∧
      more.map Run.callback = callbacks ∧
        ∀ r ∈ more, r.id = id ∧ r.appearance = n ∧ w.replica.Fills r.moment := by
  induction callbacks generalizing w with
  | nil => exact ⟨[], reports_of_eq rfl rfl rfl, rfl, by simp⟩
  | cons callback callbacks ih =>
      have hrest : (w.run id n callback).replica.arena.id? n = some id :=
        (w.replica.id?_run n callback n).trans hid
      obtain ⟨more, hreports, hcallbacks, hmore⟩ := ih hrest
      refine ⟨_, (reports_run hid callback).trans hreports, ?_, ?_⟩
      · rw [List.singleton_append, List.map_cons, hcallbacks]
      · intro r hr
        rcases List.mem_cons.mp hr with rfl | hr
        · exact ⟨rfl, rfl, .refl _⟩
        · obtain ⟨hid, happearance, hfills⟩ := hmore r hr
          exact ⟨hid, happearance, (w.replica.fills_run n callback).trans hfills⟩

/-- All that waited for an id is run with its instance, while no slot is emptied. -/
theorem exists_runs_drain (hid : w.replica.arena.id? n = some id) :
    ∃ more, w.Reports (w.drain id n) more ∧
      more.map Run.callback = w.replica.waitingFor id ∧
      ∀ r ∈ more, r.id = id ∧ r.appearance = n ∧ w.replica.Fills r.moment := by
  let erased : Watched :=
    { w with replica := { w.replica with waiting := w.replica.waiting.erase id } }
  obtain ⟨more, hreports, hcallbacks, hmore⟩ :=
    exists_runs (w := erased) hid (w.replica.waitingFor id)
  refine ⟨more, ⟨hreports.ran, hreports.updates, hreports.notices⟩, hcallbacks, fun r hr => ?_⟩
  obtain ⟨hid, happearance, hfills⟩ := hmore r hr
  exact ⟨hid, happearance, hfills.find?, hfills.empty⟩

theorem registered_drain (w : Watched) (id : ContentId) (n : Serial) :
    (w.drain id n).registered = w.registered :=
  List.foldlRecOn (motive := fun v : Watched => v.registered = w.registered) _ _ rfl
    fun _ hv _ _ => hv

theorem advance_drain (hid : w.replica.arena.id? n = some id)
    (hfound : w.replica.find? id = some n) (hlinked : w.replica.Linked n) :
    w.Advance (w.drain id n) := by
  have hdrained := w.replica_drain id n
  obtain ⟨more, hreports, hcallbacks, hmore⟩ := exists_runs_drain hid
  refine ⟨?_, ⟨more, hreports, ?_⟩, fun hw => ⟨fun other => ?_, ?_⟩⟩
  · rw [registered_drain]
  · intro r hr
    obtain ⟨rfl, rfl, hfills⟩ := hmore r hr
    refine ⟨⟨(hfills.find? r.id).trans hfound, hfills.linked hlinked⟩, ?_⟩
    rw [hdrained, Replica.find?_drain, hfound]
  · rw [ranFor_append hreports.ran (fun r hr => (hmore r hr).1), hcallbacks, hdrained,
      Replica.waitingFor_drain, registeredFor, registered_drain]
    refine (hw.each other).trans ?_
    split
    · next heq => rw [heq, List.append_nil]
    · rw [List.append_nil]
  · have hlength : more.length = (w.replica.waitingFor id).length := by
      rw [← hcallbacks, List.length_map]
    have hpending := w.replica.pendingCount_drain id n
    rw [registered_drain, hreports.ran, hdrained, List.length_append, hw.total]
    omega

theorem advance_drainEach (hids : ∀ s ∈ stored, w.replica.arena.id? s.2 = some s.1)
    (hfound : ∀ s ∈ stored, w.replica.find? s.1 = some s.2)
    (hlinked : ∀ s ∈ stored, w.replica.Linked s.2) : w.Advance (w.drainEach stored) := by
  induction stored generalizing w with
  | nil => exact .refl w
  | cons s stored ih =>
      have hfills : w.replica.Fills (w.drain s.1 s.2).replica := by
        rw [replica_drain]
        exact w.replica.fills_drain s.1 s.2
      have hhead := advance_drain (hids s List.mem_cons_self) (hfound s List.mem_cons_self)
        (hlinked s List.mem_cons_self)
      refine hhead.trans (ih (w := w.drain s.1 s.2) ?_ ?_ ?_) ?_
      · intro t ht
        rw [replica_drain, Replica.id?_drain]
        exact hids t (List.mem_cons_of_mem s ht)
      · intro t ht
        rw [hfills.find?]
        exact hfound t (List.mem_cons_of_mem s ht)
      · intro t ht
        exact hfills.linked (hlinked t (List.mem_cons_of_mem s ht))
      · intro id
        change ((w.drain s.1 s.2).drainEach stored).replica.find? id = _
        rw [replica_drainEach, Replica.find?_drainEach]

theorem insert_of_named {state : WireState} (hname : state.contentId = id) :
    w.insert id state = ({ w with replica := w.replica.keep id state }.link
      w.replica.arena.next).drain id w.replica.arena.next := by
  rw [insert, Replica.store_of_named hname]

theorem advance_insert (w : Watched) (id : ContentId) (state : WireState) :
    w.Advance (w.insert id state) := by
  by_cases hname : state.contentId = id
  · rw [insert_of_named hname]
    generalize hstored : ({ w with replica := w.replica.keep id state } : Watched) = v
    have hkept : w.Advance v := hstored ▸ w.advance_of_eq rfl rfl rfl
    have hid : v.replica.arena.id? w.replica.arena.next = some id := by
      rw [← hstored, ← hname]
      exact w.replica.arena.id?_push_next state
    have hfound : v.replica.find? id = some w.replica.arena.next := by
      rw [← hstored]
      exact (w.replica.find?_keep id state id).trans (if_pos rfl)
    have hlink := v.replica_link w.replica.arena.next
    have hfind (other : ContentId) :
        (v.link w.replica.arena.next).replica.find? other = v.replica.find? other := by
      rw [hlink, Replica.find?_link]
    refine (hkept.trans (v.advance_link _) hfind).trans (advance_drain ?_ ?_ ?_) ?_
    · rw [hlink, Replica.id?_link, hid]
    · rw [hfind, hfound]
    · rw [hlink]
      exact v.replica.linked_link _
    · intro other
      rw [replica_drain, Replica.find?_drain]
  · rw [insert, Replica.store_of_misnamed hname]
    exact .refl w

theorem advance_applySnapshot (w : Watched) (table : Snapshot) :
    w.Advance (w.applySnapshot table) := by
  obtain ⟨-, hstored⟩ :=
    Replica.find?_storeAll (c := w.replica.forgetAll) table.pairwise_ne
  have hnamed := (w.replica.forgetAll.stored_storeAll table.entries).named
  have hkept : w.Advance
      { w with replica := (w.replica.forgetAll.storeAll table.entries).1 } := by
    obtain ⟨arena, known, copies, heq⟩ := w.replica.forgetAll.storeAll_eq table.entries
    rw [heq]
    exact w.advance_of_eq rfl rfl rfl
  change w.Advance ((Watched.linkEach
    { w with replica := (w.replica.forgetAll.storeAll table.entries).1 } _).drainEach _)
  generalize w.replica.forgetAll.storeAll table.entries = result at hstored hnamed hkept
  obtain ⟨c, stored⟩ := result
  have hlink := replica_linkEach { w with replica := c } stored
  have hfind (id : ContentId) :
      (linkEach { w with replica := c } stored).replica.find? id = c.find? id := by
    rw [hlink, Replica.find?_linkEach]
  refine (hkept.trans (advance_linkEach _ stored) hfind).trans (advance_drainEach ?_ ?_ ?_) ?_
  · intro s hs
    rw [hlink, Replica.id?_linkEach]
    exact hnamed s hs
  · intro s hs
    rw [hfind]
    exact hstored s hs
  · rw [hlink]
    exact Replica.linked_linkEach c
  · intro id
    rw [replica_drainEach, Replica.find?_drainEach]

theorem advance_turfIcon (w : Watched) (turf : TurfId) : w.Advance (w.turfIcon turf) := by
  rw [turfIcon]
  split
  · exact (w.advance_wait _ _).trans (advance_of_eq _ rfl rfl rfl) fun _ => rfl
  · next hknown =>
      rw [Replica.turfIcon]
      split
      · exact .refl w
      · next hturf =>
          rw [Replica.makeTurf]
          split
          · exact w.advance_of_eq rfl rfl rfl
          · next hunknown => exact absurd hunknown (hknown hturf)

theorem advance_step (w : Watched) (s : Step) (h : w.replica.Settling [] []) :
    w.Advance (w.step s) := by
  cases s with
  | message m =>
      cases m with
      | snapshot table => exact w.advance_applySnapshot table
      | added e => exact w.advance_insert e.id e.appearance
      | removed e => exact w.advance_of_eq rfl rfl rfl
      | animate e => exact w.advance_load e.appearance _ h
  | request q =>
      cases q with
      | load id tag => exact w.advance_load id _ h
      | bind entity id => exact w.advance_load id _ h
      | turfIcon turf => exact w.advance_turfIcon turf
      | sharedCopy id =>
          change w.Advance { w with replica := (w.replica.sharedCopy id).1 }
          rw [Replica.sharedCopy]
          split
          · exact .refl w
          · split
            · exact w.advance_of_eq rfl rfl rfl
            · exact .refl w

/-! ## Runs -/

variable {tileSize : ℕ} {steps before later : List Step} {s : Step}

theorem after_append (tileSize : ℕ) (before later : List Step) :
    after tileSize (before ++ later) = later.foldl step (after tileSize before) := by
  rw [after, List.foldl_append, after]

theorem after_concat (tileSize : ℕ) (steps : List Step) (s : Step) :
    after tileSize (steps ++ [s]) = (after tileSize steps).step s :=
  after_append tileSize steps [s]

theorem replica_after (tileSize : ℕ) (steps : List Step) :
    (after tileSize steps).replica = steps.foldl Replica.step (.empty tileSize) := by
  induction steps using List.reverseRecOn with
  | nil => rfl
  | append_singleton steps s ih => rw [after_concat, replica_step, ih, List.foldl_append]; rfl

theorem settling_after (tileSize : ℕ) (steps : List Step) :
    (after tileSize steps).replica.Settling [] [] := by
  induction steps using List.reverseRecOn with
  | nil => exact Replica.settling_empty tileSize
  | append_singleton steps s ih =>
      rw [after_concat, replica_step]
      exact ih.step s

theorem balanced_after (tileSize : ℕ) (steps : List Step) : (after tileSize steps).Balanced := by
  induction steps using List.reverseRecOn with
  | nil =>
      have hwaiting (id : ContentId) : (Replica.empty tileSize).waitingFor id = [] := by
        simp [Replica.waitingFor, Replica.empty]
      exact ⟨fun id => (hwaiting id).symm, rfl⟩
  | append_singleton steps s ih =>
      rw [after_concat]
      exact (advance_step _ s (settling_after tileSize steps)).balanced ih

theorem timely_after (tileSize : ℕ) (steps : List Step) :
    ∀ r ∈ (after tileSize steps).ran, r.Timely := by
  induction steps using List.reverseRecOn with
  | nil => exact fun r hr => absurd hr List.not_mem_nil
  | append_singleton steps s ih =>
      obtain ⟨more, hreports, hmore⟩ := (advance_step _ s (settling_after tileSize steps)).ran
      intro r hr
      rw [after_concat, hreports.ran, List.mem_append] at hr
      exact hr.elim (ih r) fun hr => (hmore r hr).1

/-- What a new replica keeps is what the callbacks gave that were run. -/
theorem reports_after (tileSize : ℕ) (steps : List Step) :
    (start tileSize).Reports (after tileSize steps) (after tileSize steps).ran := by
  induction steps using List.reverseRecOn with
  | nil => exact reports_of_eq rfl rfl rfl
  | append_singleton steps s ih =>
      obtain ⟨more, hreports, -⟩ := (advance_step _ s (settling_after tileSize steps)).ran
      rw [after_concat, hreports.ran]
      exact ih.trans hreports

/-- A step runs no callback of an id that is unknown after it. -/
theorem ranFor_concat_of_unknown
    (hunknown : (after tileSize (steps ++ [s])).replica.find? id = none) :
    (after tileSize (steps ++ [s])).ranFor id = (after tileSize steps).ranFor id := by
  rw [after_concat] at hunknown ⊢
  obtain ⟨more, hreports, hmore⟩ := (advance_step _ s (settling_after tileSize steps)).ran
  have hnone : more.filterMap (fun r => if r.id = id then some r.callback else none) = [] := by
    rw [List.filterMap_eq_nil_iff]
    intro r hr
    rw [if_neg]
    rintro rfl
    simp [(hmore r hr).2] at hunknown
  rw [ranFor, hreports.ran, List.filterMap_append, hnone, List.append_nil, ranFor]

theorem records_grow (tileSize : ℕ) (before later : List Step) :
    (after tileSize before).registered <+: (after tileSize (before ++ later)).registered ∧
      (after tileSize before).ran <+: (after tileSize (before ++ later)).ran := by
  induction later using List.reverseRecOn with
  | nil =>
      rw [List.append_nil]
      exact ⟨List.prefix_refl _, List.prefix_refl _⟩
  | append_singleton later s ih =>
      have hstep := advance_step _ s (settling_after tileSize (before ++ later))
      obtain ⟨more, hreports, -⟩ := hstep.ran
      rw [← List.append_assoc, after_concat]
      refine ⟨ih.1.trans hstep.registered, ih.2.trans ?_⟩
      rw [hreports.ran]
      exact List.prefix_append _ more

/-- Once an id is known after a step, all that was registered for it has been run. -/
theorem registeredFor_of_known (hknown : ((after tileSize steps).replica.find? id).isSome) :
    (after tileSize steps).registeredFor id = (after tileSize steps).ranFor id := by
  rw [(balanced_after tileSize steps).each,
    (settling_after tileSize steps).awaited id hknown List.not_mem_nil, List.append_nil]

/-- While an id stays unknown, nothing is run for it. -/
theorem ranFor_of_unknown (hunknown : ∀ p, p <+: later → p ≠ [] →
      (after tileSize (before ++ p)).replica.find? id = none) :
    (after tileSize (before ++ later)).ranFor id = (after tileSize before).ranFor id := by
  induction later using List.reverseRecOn with
  | nil => rw [List.append_nil]
  | append_singleton later s ih =>
      have hlast := hunknown (later ++ [s]) (List.prefix_refl _) (by simp)
      rw [← List.append_assoc] at hlast ⊢
      rw [ranFor_concat_of_unknown hlast]
      exact ih fun p hp hne => hunknown p (hp.trans (List.prefix_append _ _)) hne

/-- A callback that is registered in a step has been run after later steps exactly if its
id was known after one of the steps, that one included. -/
theorem ran_iff_known {k : ℕ} (hbefore : ((after tileSize before).registeredFor id).length ≤ k)
    (hstep : k < ((after tileSize (before ++ [s])).registeredFor id).length) :
    k < ((after tileSize (before ++ s :: later)).ranFor id).length ↔
      ∃ p, p <+: later ∧ ((after tileSize (before ++ s :: p)).replica.find? id).isSome := by
  constructor
  · intro hran
    -- nothing more has been run than before the step, so not the callback either
    by_contra hnever
    have hsame : (after tileSize (before ++ s :: later)).ranFor id =
        (after tileSize before).ranFor id := by
      refine ranFor_of_unknown fun p hp hne => ?_
      obtain ⟨q, rfl, hq⟩ := (List.prefix_cons_iff.mp hp).resolve_left hne
      by_contra hknown
      exact hnever ⟨q, hq, Option.isSome_iff_ne_none.mpr hknown⟩
    have hle : ((after tileSize before).ranFor id).length ≤
        ((after tileSize before).registeredFor id).length := by
      rw [(balanced_after tileSize before).each, List.length_append]
      exact Nat.le_add_right _ _
    rw [hsame] at hran
    omega
  · rintro ⟨p, ⟨rest, rfl⟩, hknown⟩
    have hregistered := (records_grow tileSize (before ++ [s]) p).1.filterMap
      fun e => if e.1 = id then some e.2 else none
    have hran := (records_grow tileSize (before ++ s :: p) rest).2.filterMap
      fun r => if r.id = id then some r.callback else none
    have hall := registeredFor_of_known hknown
    have happend : before ++ [s] ++ p = before ++ s :: p := by simp
    have happend' : before ++ s :: p ++ rest = before ++ s :: (p ++ rest) := by simp
    rw [happend] at hregistered
    rw [happend'] at hran
    calc k < ((after tileSize (before ++ [s])).registeredFor id).length := hstep
      _ ≤ ((after tileSize (before ++ s :: p)).registeredFor id).length := hregistered.length_le
      _ = ((after tileSize (before ++ s :: p)).ranFor id).length := by rw [hall]
      _ ≤ ((after tileSize (before ++ s :: (p ++ rest))).ranFor id).length := hran.length_le

/-- Whatever happens to a new replica, the callbacks for an id are run in the order in which
they were registered, each at most once; none is run before its id is known, and each as
soon as it is, with the instance known then and after its slots were filled; and those that
have not been run are counted.  The changes of icons and the notices that the replica keeps are
those that the callbacks gave when they were run, in this order, and no others. -/
theorem callbacks_run_once (tileSize : ℕ) (steps : List Step) :
    (after tileSize steps).replica = steps.foldl Replica.step (.empty tileSize) ∧
    (∀ id, (after tileSize steps).registeredFor id =
      (after tileSize steps).ranFor id ++ (after tileSize steps).replica.waitingFor id) ∧
    (∀ before s later, steps = before ++ s :: later → ∀ id k,
      ((after tileSize before).registeredFor id).length ≤ k →
      k < ((after tileSize (before ++ [s])).registeredFor id).length →
        (k < ((after tileSize steps).ranFor id).length ↔
          ∃ p, p <+: later ∧ ((after tileSize (before ++ s :: p)).replica.find? id).isSome)) ∧
    (∀ r ∈ (after tileSize steps).ran,
      r.moment.find? r.id = some r.appearance ∧ r.moment.Linked r.appearance) ∧
    (after tileSize steps).registered.length =
      (after tileSize steps).ran.length + (after tileSize steps).replica.pendingCount ∧
    (after tileSize steps).replica.updates =
      (after tileSize steps).ran.filterMap Run.update? ∧
    (after tileSize steps).replica.notices =
      (after tileSize steps).ran.filterMap Run.notice? := by
  have hbalanced := balanced_after tileSize steps
  have hreports := reports_after tileSize steps
  refine ⟨replica_after tileSize steps, hbalanced.each, ?_, timely_after tileSize steps,
    hbalanced.total, hreports.updates, hreports.notices⟩
  rintro before s later rfl id k hbefore hstep
  exact ran_iff_known hbefore hstep

/-- Somebody asks for a plain appearance before it arrives, and is told when it does. -/
theorem callbacks_run_once_late :
    let state : WireState := .ofProperties .plain
    let load : Step := .request (.load state.contentId "late")
    let added : Step := .message (.added ⟨state.contentId, state⟩)
    ((after 32 [load]).ranFor state.contentId).length = 0 ∧
      0 < ((after 32 [load, added]).ranFor state.contentId).length := by
  intro state load added
  have hregistered : 0 < ((after 32 [load]).registeredFor state.contentId).length := by
    decide +kernel
  have hknown : ((after 32 [load, added]).replica.find? state.contentId).isSome := by
    decide +kernel
  have hrun := (callbacks_run_once 32 [load, added]).2.2.1 [] load [added] rfl state.contentId 0
    (Nat.le_refl _) hregistered
  exact ⟨by decide +kernel, hrun.mpr ⟨[added], List.prefix_refl _, hknown⟩⟩

end Watched
end AppearanceSync
