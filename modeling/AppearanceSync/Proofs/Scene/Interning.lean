import AppearanceSync.Proofs.Registry.Interning
import AppearanceSync.Proofs.Scene.Liveness

/-!
# Interning in every run

Whatever has happened before, interning a tree gives an instance of the name that the
tree has by itself.  If no two states that matter are hashed alike, the instance is
the tree, the registry announces what it lacked of it, and interning it again while
somebody holds it gives the same instance.
-/

namespace AppearanceSync

/-! ## The limit of depth -/

namespace Hub

variable {h : Hub}

/-- A move does not change how deeply trees may be nested. -/
theorem maxDepth_step (hs : h.Steady) (move : Move) :
    (h.step move).registry.maxDepth = h.registry.maxDepth := by
  by_cases hmove : move = .flush
  · rw [hmove, hs.step_flush]
    have hfirst := (round_course hs.balanced).maxDepth
    exact (round_course (balanced_afterRound hs.balanced)).maxDepth.trans hfirst
  · exact (hs.step_course hmove).maxDepth

end Hub

namespace Scene

variable {s : Scene} {a : Handle} {d : Descriptor}

theorem maxDepth_foldl (hs : s.flat.Steady) (acts : List Act) :
    (acts.foldl step s).hub.registry.maxDepth = s.hub.registry.maxDepth := by
  induction acts generalizing s with
  | nil => rfl
  | cons act acts ih =>
      refine (ih (steady_step hs act)).trans ?_
      cases act with
      | call move =>
          obtain ⟨move', hmove, -⟩ := s.exists_flat_step move
          have hstep := Hub.maxDepth_step hs move'
          rw [← hmove] at hstep
          exact hstep
      | sprite call => exact ((s.changedBy_stepSprite call).course hs).maxDepth

theorem maxDepth_run (maxDepth : ℕ) (acts : List Act) :
    (run maxDepth acts).hub.registry.maxDepth = maxDepth :=
  maxDepth_foldl (s := start maxDepth) (Hub.steady_start maxDepth) acts

/-! ## Interning -/

theorem intern_eq (hdepth : d.depth ≤ s.hub.registry.maxDepth) :
    s.hub.registry.intern d =
      ((s.hub.registry.internTree d).1, .ok (s.hub.registry.internTree d).2) := by
  rw [Registry.intern, Descriptor.validate, if_neg (Nat.not_lt.mpr hdepth)]

/-- No two different states among those of registered instances and those in the tree
are hashed alike. -/
def Unambiguous (s : Scene) (d : Descriptor) : Prop :=
  {state | state ∈ s.hub.registry.live.map Canonical.toState ++ d.states}.InjOn WireState.contentId

/-- In every run, a tree that is not nested too deeply is interned as an instance of
its own name.  Unless two different states that are registered or in the tree are
hashed alike, the instance's editable copy is the tree, and what is announced is each
state of the tree that was not registered, once, in the order in which they come first
on the way from the leaves up.  Then also, whenever the instance is still held after
more calls, interning the tree or the editable copy gives the same instance and
announces nothing. -/
theorem intern_faithful (maxDepth : ℕ) (acts : List Act) (d : Descriptor)
    (hdepth : d.depth ≤ maxDepth) :
    let s := run maxDepth acts
    let r := s.hub.registry
    ∃ r' a, r.intern d = (r', .ok a) ∧ a.id = d.canonical.id ∧
      (s.Unambiguous d →
        a.toDescriptor = .ok d ∧
        r'.outbox.waiting.toList =
          r.outbox.waiting.toList ++ (r.missing d.states).map Registry.added ∧
        ∀ later, let t := run maxDepth (acts ++ .call (.intern d) :: later)
          t.Reachable a → ∀ d', d' = d ∨ a.toDescriptor = .ok d' →
            ∃ r'', t.hub.registry.intern d' = (r'', .ok a) ∧
              r''.outbox.waiting = t.hub.registry.outbox.waiting) := by
  intro s r
  have hs : s.flat.Steady := steady_run maxDepth acts
  have hbalanced : r.Balanced s.flat.held := hs.balanced
  have hlimit : r.maxDepth = maxDepth := maxDepth_run maxDepth acts
  have hafter := (Registry.internTree_course r d _ hbalanced).balanced hbalanced
  have hid := Registry.id_internTree r d _ hbalanced
  refine ⟨_, _, intern_eq (hlimit ▸ hdepth), hid.trans d.id_canonical.symm, ?_⟩
  intro hinj
  have hlive : r.StatesIn {state | state ∈ r.live.map Canonical.toState ++ d.states} := by
    intro id state hstate
    obtain ⟨b, hb, rfl⟩ := Option.map_eq_some_iff.mp hstate
    exact List.mem_append_left _ (List.mem_map_of_mem (Registry.mem_live_iff.mpr ⟨id, hb⟩))
  have hadded := Registry.enriches_internTree hinj r d _ hbalanced hlive
    fun state hstate => List.mem_append_right _ hstate
  have hfound := hafter.find?_of_mem (Multiset.mem_cons_self _ _)
  have hcopy : (r.internTree d).2.toDescriptor = .ok d := by
    rw [hafter.toDescriptor_eq_ok_iff hfound, hid]
    refine Ledger.unfolds_of_states fun state hstate => ?_
    exact (hadded.ledger _ _).mpr (Or.inr ⟨hstate, rfl⟩)
  refine ⟨hcopy, hadded.waiting, ?_⟩
  intro later t hreachable d' hd'
  obtain rfl : d' = d := by
    rcases hd' with rfl | hd'
    · rfl
    · exact Except.ok.inj (hd'.symm.trans hcopy)
  have ht : t.flat.Steady := steady_run maxDepth _
  have hheld := (find?_eq_some_iff ht).mpr ⟨hreachable, rfl⟩
  obtain ⟨hsame, hwaiting⟩ := ht.balanced.internTree_of_registered hheld hcopy
  refine ⟨(t.hub.registry.internTree d').1, ?_, hwaiting⟩
  rw [intern_eq ((maxDepth_run maxDepth _).symm ▸ hdepth)]
  exact congrArg _ (congrArg _ hsame)

/-- A tree in which one part stands twice is interned beside an instance of that part. -/
theorem intern_faithful_shared :
    let part := Descriptor.tinted ⟨4, 4⟩ ⟨191, 207, 225, 185⟩
    let d : Descriptor := ⟨.plain, [part, part], [.tinted ⟨0, 2⟩ ⟨250, 70, 209, 185⟩]⟩
    let s := run 1 [.call (.intern part)]
    d.depth ≤ 1 ∧ s.Unambiguous d ∧ (s.hub.registry.missing d.states).length = 2 ∧
      ∃ r' a, s.hub.registry.intern d = (r', .ok a) ∧ a.id = d.canonical.id ∧
        a.toDescriptor = .ok d := by
  intro part d s
  have hdepth : d.depth ≤ 1 := by
    simp [d, part, Descriptor.depth, Descriptor.deepestOf, Descriptor.children,
      Descriptor.tinted, Descriptor.ofProperties]
  have hpairs : ∀ x ∈ s.hub.registry.live.map Canonical.toState ++ d.states,
      ∀ y ∈ s.hub.registry.live.map Canonical.toState ++ d.states,
        x.contentId = y.contentId → x = y := by
    decide +kernel
  have hinj : s.Unambiguous d := fun x hx y hy => hpairs x hx y hy
  obtain ⟨r', a, hintern, hid, hfaithful⟩ := intern_faithful 1 [.call (.intern part)] d hdepth
  exact ⟨hdepth, hinj, by decide +kernel, r', a, hintern, hid, (hfaithful hinj).1⟩

end Scene
end AppearanceSync
