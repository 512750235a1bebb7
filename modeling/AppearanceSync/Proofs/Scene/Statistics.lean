import AppearanceSync.Proofs.Registry.Counting
import AppearanceSync.Proofs.Scene.Refusal

/-!
# Statistics of every run

In every run the counts of the registry can be told from outside: from what has been announced,
and from how many descriptors the successful calls had in their trees.  It does not matter whether
handles are given up by callers, by sprites, by instances that are removed, by trees that were
registered already, or by joining sessions.
-/

namespace AppearanceSync

open Registry (messagesOf)

/-- How many descriptors of the tree are interned by a call that ends like this: all or none. -/
def Descriptor.granted {β : Type} (d : Descriptor) : Except AppearanceError β → ℕ
  | .ok _ => d.size
  | .error _ => 0

variable {n : ℕ}

/-! ## The registry -/

namespace Registry

theorem answered_internDeeds (r : Registry) (d : Descriptor) :
    Deed.answered (r.internDeeds d) = d.granted (r.intern d).2 := by
  rw [internDeeds, intern]
  cases d.validate r.maxDepth with
  | error e => rfl
  | ok _ => exact answered_internTreeDeeds r d

theorem answered_animateDeeds (r : Registry) (target : Target) (d : Descriptor)
    (params : PlayParams) :
    Deed.answered (r.animateDeeds target d params) = d.granted (r.animate target d params).2 := by
  have hintern := answered_internDeeds r d
  rw [animateDeeds, animate]
  rcases hresult : r.intern d with ⟨r', e | a⟩
  · rwa [hresult] at hintern
  · rw [hresult] at hintern
    exact (Deed.answered_append _ _).trans hintern

theorem granted_animate (r : Registry) (target : Target) (d : Descriptor) (params : PlayParams) :
    d.granted (r.animate target d params).2 = d.granted (r.intern d).2 := by
  rw [animate]
  rcases r.intern d with ⟨r', e | a⟩ <;> rfl

theorem answered_joinDeeds (session : SessionId) (captured : List Handle) :
    Deed.answered (joinDeeds session captured) = 0 := by
  rw [joinDeeds, Deed.answered_append, Deed.answered_map_retain]
  rfl

end Registry

/-! ## Callers and clients -/

namespace Hub

variable {h : Hub}

/-- How many descriptors a move has interned. -/
def descriptors (h : Hub) (move : Move) : ℕ :=
  move.tree?.elim 0 fun d => d.granted (h.registry.intern d).2

theorem answered_deeds (h : Hub) (move : Move) :
    Deed.answered (h.deeds move) = h.descriptors move := by
  cases move with
  | intern d => exact Registry.answered_internDeeds h.registry d
  | animate target d params =>
      exact (Registry.answered_animateDeeds ..).trans (Registry.granted_animate ..)
  | lookup id => exact Deed.answered_map_retain _
  | copy i => exact Deed.answered_map_retain _
  | part i k => exact Deed.answered_map_retain _
  | drop i =>
      exact Deed.answered_elim _ fun a =>
        Deed.answered_of_givesUp (Registry.givesUp_releaseDeeds h.registry a)
  | connect rank => exact Registry.answered_joinDeeds _ _
  | _ => rfl

/-- A round of delivery only gives handles up. -/
theorem agrees_afterRound {r : Registry} {out : Multiset Handle} {ms : List Message}
    (h : r.Balanced out) (hr : r.stats.Agrees ms n) :
    r.afterRound.stats.Agrees (ms ++ messagesOf r.roundJournal) n := by
  have hround := (round_course h).agrees h.takeAll hr
  have hnothing : Deed.answered r.roundDeeds = 0 :=
    Deed.answered_of_givesUp (Registry.givesUp_releaseAllDeeds _ _)
  rwa [hnothing] at hround

theorem Steady.agrees_flush (hs : h.Steady) (hr : h.registry.stats.Agrees h.published n) :
    (h.step .flush).registry.stats.Agrees (h.step .flush).published n := by
  have hfirst := agrees_afterRound hs.balanced hr
  have hsecond := agrees_afterRound (balanced_afterRound hs.balanced) hfirst
  have hnothing : messagesOf ([] : List (OutboundEvent × Registry)) = [] := rfl
  rw [roundJournal_afterRound hs.balanced, hnothing, List.append_nil] at hsecond
  rw [hs.step_flush, published, messagesOf, List.filterMap_append]
  exact hsecond

/-- After every move the counts agree with what has been announced and with the descriptors of
the trees that were accepted. -/
theorem Steady.agrees_step (hs : h.Steady) (move : Move)
    (hr : h.registry.stats.Agrees h.published n) :
    (h.step move).registry.stats.Agrees (h.step move).published (n + h.descriptors move) := by
  by_cases hmove : move = .flush
  · rw [hmove]
    exact hs.agrees_flush hr
  · have hagrees := (hs.step_course hmove).agrees hs.balanced hr
    rw [published, h.history_eq_journal hmove, messagesOf, List.filterMap_append]
    rwa [answered_deeds] at hagrees

theorem agrees_start (maxDepth : ℕ) :
    (start maxDepth).registry.stats.Agrees (start maxDepth).published 1 := by
  have hempty : (Registry.empty maxDepth).stats.Agrees [] 0 := ⟨rfl, rfl, rfl, rfl⟩
  have hnew : (Registry.empty maxDepth).find? Registry.standard.id = none := by
    simp [Registry.find?, Registry.empty]
  have hstats := Registry.stats_register hnew
  rw [start, Registry.start, hstats]
  exact hempty.added ⟨Registry.standard.id, Registry.standard.toState⟩

end Hub

/-! ## Sprites -/

namespace Scene

variable {s : Scene} {acts : List Act}

/-- How many descriptors a call has interned: those of its tree, if it succeeds. -/
def descriptors (s : Scene) : Act → ℕ
  | .call (.intern d) => d.granted (s.hub.registry.intern d).2
  | .call (.animate target d params) => d.granted (s.hub.registry.animate target d params).2
  | .sprite (.setAppearance i d) =>
    s.sprites[i]?.elim 0 fun p => d.granted (p.setAppearance s.hub.registry d).2.2
  | _ => 0

/-- How many descriptors the successful calls among these have interned. -/
def descriptorsOf (s : Scene) : List Act → ℕ
  | [] => 0
  | act :: acts => s.descriptors act + (s.step act).descriptorsOf acts

/-- The call asks for a tree and gets this error. -/
inductive Refuses (s : Scene) : Act → AppearanceError → Prop
  | intern {d e} (h : (s.hub.registry.intern d).2 = .error e) : Refuses s (.call (.intern d)) e
  | animate {target d params e} (h : (s.hub.registry.animate target d params).2 = .error e) :
      Refuses s (.call (.animate target d params)) e
  | setAppearance {i p d e} (hp : s.sprites[i]? = some p)
      (h : (p.setAppearance s.hub.registry d).2.2 = .error e) :
      Refuses s (.sprite (.setAppearance i d)) e

theorem answered_setAppearanceDeeds (p : Sprite) (r : Registry) (d : Descriptor) :
    Deed.answered (p.setAppearanceDeeds r d) = d.granted (p.setAppearance r d).2.2 := by
  have hintern := Registry.answered_internDeeds r d
  rw [Sprite.setAppearanceDeeds, Sprite.setAppearance]
  rcases hresult : r.intern d with ⟨r', e | a⟩
  · rwa [hresult] at hintern
  · rw [hresult] at hintern
    have hold := Deed.answered_of_givesUp (Registry.givesUp_releaseAllDeeds r' p.handles)
    exact (Deed.answered_append _ _).trans (by rw [hold, hintern]; rfl)

theorem answered_deeds (s : Scene) (call : SpriteCall) :
    Deed.answered (s.deeds call) = s.descriptors (.sprite call) := by
  have hrelease (p : Sprite) := Deed.answered_of_givesUp
    (Registry.givesUp_releaseAllDeeds s.hub.registry p.handles)
  cases call with
  | setAppearance i d =>
      rw [deeds, descriptors]
      cases s.sprites[i]? with
      | none => rfl
      | some p => exact answered_setAppearanceDeeds p _ d
  | clear i => exact Deed.answered_elim _ hrelease
  | despawn i => exact Deed.answered_elim _ hrelease
  | copy i => exact Deed.answered_elim _ fun p => Deed.answered_map_retain p.handles
  | borrow i => exact Deed.answered_elim _ fun p => Deed.answered_map_retain p.handles
  | _ => rfl

/-- A call that does not concern sprites interns as much as the flat hub's. -/
theorem descriptors_call (s : Scene) (move : Move) :
    s.descriptors (.call move) = s.flat.descriptors move := by
  cases move with
  | animate target d params => exact Registry.granted_animate ..
  | _ => rfl

theorem agrees_step {n : ℕ} (hs : s.flat.Steady) (act : Act)
    (hr : s.hub.registry.stats.Agrees s.hub.published n) :
    (s.step act).hub.registry.stats.Agrees (s.step act).hub.published (n + s.descriptors act) := by
  cases act with
  | call move =>
      obtain ⟨move', hmove, htree⟩ := s.exists_flat_step move
      have hagrees := hs.agrees_step move' hr
      rw [← hmove, Hub.descriptors, htree] at hagrees
      rw [descriptors_call]
      exact hagrees
  | sprite call =>
      have hc := s.changedBy_stepSprite call
      have hagrees := (hc.course hs).agrees hs.balanced hr
      have hpublished : (s.stepSprite call).hub.published =
          s.hub.published ++ messagesOf (s.hub.registry.journal (s.deeds call)) :=
        (congrArg Hub.published hc.flat).trans List.filterMap_append
      rw [answered_deeds] at hagrees
      rw [step, hpublished]
      exact hagrees

theorem agrees_foldl {n : ℕ} (hs : s.flat.Steady) (acts : List Act)
    (hr : s.hub.registry.stats.Agrees s.hub.published n) :
    (acts.foldl step s).hub.registry.stats.Agrees (acts.foldl step s).hub.published
      (n + s.descriptorsOf acts) := by
  induction acts generalizing s n with
  | nil => exact hr
  | cons act acts ih =>
      have hrest := ih (steady_step hs act) (agrees_step hs act hr)
      rwa [Nat.add_assoc] at hrest

/-- Who is refused asked for a tree that is nested too deeply. -/
theorem Refuses.exists_asks {act : Act} {e : AppearanceError} (h : s.Refuses act e) :
    ∃ d, act.Asks d ∧ s.hub.registry.maxDepth < d.nesting := by
  have hdeep {d : Descriptor} {β : Type} {answer : Except AppearanceError β}
      (hlimited : d.LimitedTo s.hub.registry.maxDepth answer) (herror : answer = .error e) :
      s.hub.registry.maxDepth < d.nesting := by
    by_contra hle
    obtain ⟨b, hb⟩ := hlimited.accepted (Nat.le_of_not_lt hle)
    rw [herror] at hb
    cases hb
  cases h with
  | intern h => exact ⟨_, .intern, hdeep (Registry.limitedTo_intern _ _) h⟩
  | animate h => exact ⟨_, .animate _ _, hdeep (Registry.limitedTo_animate _ _ _ _) h⟩
  | setAppearance hp h =>
      exact ⟨_, .setAppearance _, hdeep (Sprite.limitedTo_setAppearance _ _ _) h⟩

/-- In every run, the registry has counted one new instance for each addition that was announced,
and one release for each removal; as many instances are registered as were made and not
released.  What was made and what was found in place of a new instance are together the plain
appearance and the descriptors, with repetitions, of the trees of all successful calls, whether
they were made by callers, for animations or for sprites.  A call that is refused counts for
nothing.  What has been announced and not yet delivered is what waits in the registry's queue, in
this order. -/
theorem statistics_account (maxDepth : ℕ) (acts : List Act) :
    let s := run maxDepth acts
    let stats := s.hub.registry.stats
    stats.interned = s.hub.published.countP Message.isAdded ∧
    stats.released = s.hub.published.countP Message.isRemoved ∧
    (stats.released ≤ stats.interned ∧ stats.live = stats.interned - stats.released) ∧
    stats.interned + stats.deduplicated = 1 + (start maxDepth).descriptorsOf acts ∧
    (∀ act e, s.Refuses act e → (s.step act).hub.registry.stats = stats) ∧
    s.hub.delivered ≤ s.hub.history.length ∧
    s.hub.registry.outbox.waiting.toList =
      (s.hub.history.drop s.hub.delivered).map Prod.fst := by
  intro s stats
  have hsteady : s.flat.Steady := steady_run maxDepth acts
  have hagrees : stats.Agrees s.hub.published (1 + (start maxDepth).descriptorsOf acts) :=
    agrees_foldl (s := start maxDepth) (Hub.steady_start maxDepth) acts
      (Hub.agrees_start maxDepth)
  have hlive := hagrees.live
  refine ⟨hagrees.interned, hagrees.released, ⟨by omega, by omega⟩, hagrees.asked, ?_,
    hsteady.reached, hsteady.waiting⟩
  intro act e hrefused
  obtain ⟨d, hasks, hdeep⟩ := hrefused.exists_asks
  rw [step_of_lt hdeep hasks]

/-- A part that stands twice in a tree is made once and found once. -/
example :
    let part := Descriptor.tinted ⟨4, 4⟩ ⟨191, 207, 225, 185⟩
    (run 1 [.call (.intern ⟨.plain, [part, part], []⟩), .call (.drop 0)]).hub.registry.stats =
      ⟨1, 3, 1, 2⟩ := by
  decide +kernel

end Scene
end AppearanceSync
