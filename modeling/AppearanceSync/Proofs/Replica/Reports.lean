import AppearanceSync.Proofs.Replica.Watched

/-!
# What callbacks leave behind

A callback changes an icon, fills a slot or tells somebody.  A replica keeps the changes of icons
and the notices until they are taken.  `Watched.Reports` says that what was added to the two
lists is what the callbacks gave that were run in between, each in its turn; nothing else adds
to them.
-/

namespace AppearanceSync

/-- The change that the callback makes when it is run with an instance. -/
def Callback.update? (n : Serial) : Callback → Option IconUpdate
  | .update target change => some ⟨target, n, change⟩
  | .notify _ | .link _ _ => none

namespace Run

/-- The change of an icon that the run makes. -/
def update? (r : Run) : Option IconUpdate := r.callback.update? r.appearance

/-- The notice that the run gives: it names the id that the callback was for, and says whether
everything below had arrived when the callback was run. -/
def notice? (r : Run) : Option Notice :=
  match r.callback with
  | .notify tag => some ⟨tag, r.id, r.moment.arena.isResolved r.appearance⟩
  | .link _ _ | .update _ _ => none

end Run

namespace Replica

variable {c : Replica} {id : ContentId} {n : Serial}

theorem updates_run (c : Replica) (n : Serial) (callback : Callback) :
    (c.run n callback).updates = c.updates ++ (callback.update? n).toList := by
  cases callback with
  | notify tag =>
      rw [run]
      split <;> exact (List.append_nil _).symm
  | link parent slot => exact (List.append_nil _).symm
  | update target change => rfl

/-- A notice names the id of the instance. -/
theorem notices_run (hid : c.arena.id? n = some id) (callback : Callback) :
    (c.run n callback).notices =
      c.notices ++ (Run.notice? ⟨id, callback, n, c⟩).toList := by
  cases callback with
  | notify tag =>
      obtain ⟨state, hstate, rfl⟩ := Option.map_eq_some_iff.mp hid
      obtain ⟨i, hi, rfl⟩ := Option.map_eq_some_iff.mp hstate
      rw [run, hi]
      rfl
  | link parent slot => exact (List.append_nil _).symm
  | update target change => exact (List.append_nil _).symm

theorem id?_run (c : Replica) (n : Serial) (callback : Callback) (m : Serial) :
    (c.run n callback).arena.id? m = c.arena.id? m := by
  obtain ⟨updates, notices, heq⟩ := run_eq c n callback
  rw [heq]
  exact congrArg (Option.map _) (Arena.state?_serveAll c.arena n m [callback])

end Replica

namespace Watched

variable {w w' w'' : Watched} {id : ContentId} {n : Serial} {runs more : List Run}

/-- From the first to the second, these callbacks were run, and what was added to the changes of
icons and to the notices is what they gave. -/
structure Reports (w w' : Watched) (runs : List Run) : Prop where
  ran : w'.ran = w.ran ++ runs
  updates : w'.replica.updates = w.replica.updates ++ runs.filterMap Run.update?
  notices : w'.replica.notices = w.replica.notices ++ runs.filterMap Run.notice?

theorem Reports.trans (h : w.Reports w' runs) (h' : w'.Reports w'' more) :
    w.Reports w'' (runs ++ more) where
  ran := by rw [h'.ran, h.ran, List.append_assoc]
  updates := by rw [h'.updates, h.updates, List.filterMap_append, List.append_assoc]
  notices := by rw [h'.notices, h.notices, List.filterMap_append, List.append_assoc]

theorem reports_of_eq (hran : w'.ran = w.ran) (hupdates : w'.replica.updates = w.replica.updates)
    (hnotices : w'.replica.notices = w.replica.notices) : w.Reports w' [] where
  ran := hran.trans (List.append_nil _).symm
  updates := hupdates.trans (List.append_nil _).symm
  notices := hnotices.trans (List.append_nil _).symm

theorem reports_run (hid : w.replica.arena.id? n = some id) (callback : Callback) :
    w.Reports (w.run id n callback) [⟨id, callback, n, w.replica⟩] where
  ran := rfl
  updates := by
    refine (w.replica.updates_run n callback).trans ?_
    rw [List.filterMap_cons, Run.update?]
    cases callback.update? n <;> rfl
  notices := by
    refine (Replica.notices_run hid callback).trans ?_
    rw [List.filterMap_cons]
    cases Run.notice? ⟨id, callback, n, w.replica⟩ <;> rfl

/-- A slot that is filled at once is filled without a word. -/
theorem reports_linkSlot (w : Watched) (n : Serial) (s : ContentId × ℕ) :
    w.Reports (w.linkSlot n s) [] := by
  rw [linkSlot]
  split <;> exact reports_of_eq rfl rfl rfl

theorem reports_link (w : Watched) (n : Serial) : w.Reports (w.link n) [] := by
  rw [link]
  split
  · exact List.foldlRecOn (motive := fun v => w.Reports v []) _ _ (reports_of_eq rfl rfl rfl)
      fun v hv s _ => hv.trans (v.reports_linkSlot n s)
  · exact reports_of_eq rfl rfl rfl

theorem reports_linkEach (w : Watched) (stored : List (ContentId × Serial)) :
    w.Reports (w.linkEach stored) [] :=
  List.foldlRecOn (motive := fun v => w.Reports v []) _ _ (reports_of_eq rfl rfl rfl)
    fun v hv s _ => hv.trans (v.reports_link s.2)

end Watched
end AppearanceSync
