import AppearanceSync.Proofs.Nesting
import AppearanceSync.Proofs.Scene.Interning

/-!
# Trees that are nested too deeply

Whoever asks for a tree that is nested more deeply than the registry allows is told how deeply it
is nested, and nothing else happens: the check is made before any part of the tree is interned.
Every other tree is accepted.
-/

namespace AppearanceSync

variable {d : Descriptor} {r : Registry}

/-! ## The registry -/

namespace Registry

/-- A refused tree leaves no trace in the registry. -/
theorem intern_of_lt (h : r.maxDepth < d.nesting) :
    r.intern d = (r, .error (.depthExceeded d.nesting r.maxDepth)) := by
  rw [intern, Descriptor.validate_of_lt h]

theorem internDeeds_of_lt (h : r.maxDepth < d.nesting) : r.internDeeds d = [] := by
  rw [internDeeds, Descriptor.validate_of_lt h]

theorem limitedTo_intern (r : Registry) (d : Descriptor) :
    d.LimitedTo r.maxDepth (r.intern d).2 where
  refused h := by rw [intern_of_lt h]
  accepted h := ⟨_, by rw [intern, Descriptor.validate_of_le h]⟩

variable {target : Target} {params : PlayParams}

theorem animate_of_lt (h : r.maxDepth < d.nesting) :
    r.animate target d params = (r, .error (.depthExceeded d.nesting r.maxDepth)) := by
  rw [animate, intern_of_lt h]

theorem limitedTo_animate (r : Registry) (target : Target) (d : Descriptor)
    (params : PlayParams) : d.LimitedTo r.maxDepth (r.animate target d params).2 where
  refused h := by rw [animate_of_lt h]
  accepted h := ⟨_, by rw [animate, intern, Descriptor.validate_of_le h]⟩

end Registry

/-! ## Sprites -/

namespace Sprite

variable {p : Sprite}

/-- A sprite keeps what it shows when it is refused another appearance. -/
theorem setAppearance_of_lt (h : r.maxDepth < d.nesting) :
    p.setAppearance r d = (p, r, .error (.depthExceeded d.nesting r.maxDepth)) := by
  rw [setAppearance, Registry.intern_of_lt h]

theorem limitedTo_setAppearance (p : Sprite) (r : Registry) (d : Descriptor) :
    d.LimitedTo r.maxDepth (p.setAppearance r d).2.2 where
  refused h := by rw [setAppearance_of_lt h]
  accepted h := ⟨(), by rw [setAppearance, Registry.intern, Descriptor.validate_of_le h]⟩

end Sprite

/-! ## Runs -/

/-- A call that interns the tree. -/
inductive Act.Asks (d : Descriptor) : Act → Prop
  | intern : Asks d (.call (.intern d))
  | animate (target : Target) (params : PlayParams) : Asks d (.call (.animate target d params))
  | setAppearance (i : ℕ) : Asks d (.sprite (.setAppearance i d))

theorem Hub.acquire_nothing (h : Hub) : h.acquire [] h.registry [] = h := by
  simp [acquire, Registry.journal]

namespace Scene

variable {s : Scene}

/-- A refused call leaves the whole scene as it was: what is registered and announced, what is
delivered, and what callers and sprites hold. -/
theorem step_of_lt (h : s.hub.registry.maxDepth < d.nesting) {act : Act} (hact : act.Asks d) :
    s.step act = s := by
  have hdeeds := Registry.internDeeds_of_lt h
  cases hact with
  | intern =>
      rw [step, Hub.step, Registry.intern_of_lt h, hdeeds]
      exact congrArg (Scene.mk · s.sprites) s.hub.acquire_nothing
  | animate target params =>
      rw [step, Hub.step, Registry.animateDeeds, Registry.intern_of_lt h,
        Registry.animate_of_lt h, hdeeds]
      exact congrArg (Scene.mk · s.sprites) s.hub.acquire_nothing
  | setAppearance i =>
      rw [step, stepSprite]
      split
      · next p hp =>
          obtain ⟨hi, rfl⟩ := List.getElem?_eq_some_iff.mp hp
          simp only [Sprite.setAppearance_of_lt h, Sprite.setAppearanceDeeds,
            Registry.intern_of_lt h, hdeeds, List.set_getElem_self]
          rw [change, Hub.acquire_nothing]
      · rfl

/-- A tree is refused exactly if it is nested more deeply than the limit allows, by
canonicalization as well as by interning, by animations and by sprites, in whatever state the
registry and the sprite are; and then the registry and the sprite stay as they were.  The limit
of a run is the one that it was started with, and after a refused call the whole scene is the
same as before. -/
theorem refused_without_trace (d : Descriptor) :
    (∀ limit, d.LimitedTo limit (d.canonicalize limit)) ∧
    (∀ r : Registry, d.LimitedTo r.maxDepth (r.intern d).2 ∧
      (∀ target params, d.LimitedTo r.maxDepth (r.animate target d params).2) ∧
      (∀ p : Sprite, d.LimitedTo r.maxDepth (p.setAppearance r d).2.2) ∧
      (r.maxDepth < d.nesting → (r.intern d).1 = r ∧
        (∀ target params, (r.animate target d params).1 = r) ∧
        ∀ p : Sprite, (p.setAppearance r d).1 = p ∧ (p.setAppearance r d).2.1 = r)) ∧
    ∀ maxDepth acts, (run maxDepth acts).hub.registry.maxDepth = maxDepth ∧
      (maxDepth < d.nesting → ∀ act : Act, act.Asks d →
        (run maxDepth acts).step act = run maxDepth acts) := by
  refine ⟨d.limitedTo_canonicalize, fun r => ?_, fun maxDepth acts => ?_⟩
  · refine ⟨r.limitedTo_intern d, fun target params => r.limitedTo_animate target d params,
      fun p => p.limitedTo_setAppearance r d, fun h => ?_⟩
    refine ⟨by rw [Registry.intern_of_lt h], fun target params => ?_, fun p => ?_⟩
    · rw [Registry.animate_of_lt h]
    · rw [Sprite.setAppearance_of_lt h]
      exact ⟨rfl, rfl⟩
  · have hlimit := maxDepth_run maxDepth acts
    refine ⟨hlimit, fun h act hact => ?_⟩
    apply step_of_lt _ hact
    rwa [hlimit]

end Scene
end AppearanceSync
