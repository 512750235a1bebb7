import AppearanceSync.Proofs.Hub.Delivery
import AppearanceSync.Sprite

/-!
# Runs of a server with sprites

A scene is a hub together with sprites, each of which may hold a handle of its own.
Besides the calls of a hub there are those by which sprites are made, change what
they show and go away again.

A sprite's handle is as good as a caller's.  So a scene is compared with the flat
hub whose callers have the handles of all sprites as well: what is true of the
record of every hub is true of the record of every flat hub.
-/

namespace AppearanceSync

open Registry (Course)

namespace Sprite

/-- The handle that a sprite holds, if it shows something. -/
def handles (s : Sprite) : List Handle := s.appearance.toList

/-- The deeds of showing another appearance; there are none if it is refused. -/
def setAppearanceDeeds (s : Sprite) (r : Registry) (d : Descriptor) : List Deed :=
  match r.intern d with
  | (_, .error _) => r.internDeeds d
  | (r', .ok _) => r.internDeeds d ++ r'.releaseAllDeeds s.handles

variable {s : Sprite} {r : Registry} {d : Descriptor} {out : Multiset Handle}

theorem setAppearance_course (h : r.Balanced (s.handles + out)) :
    Course r (s.handles + out) (s.setAppearanceDeeds r d) (s.setAppearance r d).2.1
      ((s.setAppearance r d).1.handles + out) := by
  have hintern := Registry.intern_course r d _ h
  rw [setAppearanceDeeds, setAppearance]
  rcases hresult : r.intern d with ⟨r', e | a⟩
  · simpa [hresult, Registry.handedOut] using hintern
  · rw [hresult] at hintern
    -- the old handle is given up while the new one is already held
    have hswap : (Registry.handedOut (.ok a) + (s.handles + out) : Multiset Handle) =
        s.handles + (Registry.handedOut (.ok a) + out) := add_left_comm _ _ _
    have hbalanced := hintern.balanced h
    rw [hswap] at hintern hbalanced
    exact hintern.append (Registry.releaseAll_course r' s.handles _ hbalanced)

end Sprite

/-- A hub with sprites. -/
structure Scene where
  hub : Hub
  sprites : List Sprite

/-- A call that concerns the `i`-th sprite. -/
inductive SpriteCall
  /-- A new sprite, which shows nothing. -/
  | spawn
  | setAppearance (i : ℕ) (d : Descriptor)
  | clear (i : ℕ)
  | place (i : ℕ) (location : Option ScreenLocation)
  /-- A second sprite that shows the same. -/
  | copy (i : ℕ)
  | despawn (i : ℕ)
  /-- A caller takes a handle to what the sprite shows. -/
  | borrow (i : ℕ)

/-- A call of a caller or a client, or one that concerns a sprite. -/
inductive Act
  | call (move : Move)
  | sprite (call : SpriteCall)

namespace Scene

/-- A scene without sprites on a hub that nobody has used yet. -/
def start (maxDepth : ℕ) : Scene := ⟨.start maxDepth, []⟩

/-- The scene after deeds of its registry, by which the sprites have changed. -/
def change (s : Scene) (deeds : List Deed) (registry : Registry) (sprites : List Sprite) : Scene :=
  ⟨s.hub.acquire deeds registry [], sprites⟩

/-- The scene after a call that concerns a sprite; if there is none, nothing happens. -/
def stepSprite (s : Scene) : SpriteCall → Scene
  | .spawn => { s with sprites := s.sprites ++ [.empty] }
  | .setAppearance i d =>
    match s.sprites[i]? with
    | some p =>
      let (p', registry, _) := p.setAppearance s.hub.registry d
      s.change (p.setAppearanceDeeds s.hub.registry d) registry (s.sprites.set i p')
    | none => s
  | .clear i =>
    match s.sprites[i]? with
    | some p =>
      let (p', registry) := p.clear s.hub.registry
      s.change (s.hub.registry.releaseAllDeeds p.handles) registry (s.sprites.set i p')
    | none => s
  | .place i location =>
    match s.sprites[i]? with
    | some p => { s with sprites := s.sprites.set i { p with screenLocation := location } }
    | none => s
  | .copy i =>
    match s.sprites[i]? with
    | some p =>
      let (p', registry) := p.copy s.hub.registry
      s.change (p.handles.map .retain) registry (s.sprites ++ [p'])
    | none => s
  | .despawn i =>
    match s.sprites[i]? with
    | some p =>
      s.change (s.hub.registry.releaseAllDeeds p.handles) (p.release s.hub.registry)
        (s.sprites.eraseIdx i)
    | none => s
  | .borrow i => { s with hub := s.hub.retain (s.sprites[i]?.map Sprite.handles).toList.flatten }

/-- The scene after a call. -/
def step (s : Scene) : Act → Scene
  | .call move => { s with hub := s.hub.step move }
  | .sprite call => s.stepSprite call

/-- The scene after calls in order. -/
def run (maxDepth : ℕ) (acts : List Act) : Scene := acts.foldl step (start maxDepth)

/-- The handles that sprites hold. -/
def worn (s : Scene) : List Handle := s.sprites.flatMap Sprite.handles

/-- The hub whose callers have the sprites' handles as well. -/
def flat (s : Scene) : Hub := { s.hub with held := s.hub.held ++ s.worn }

variable {s : Scene} {p : Sprite} {i : ℕ} {ds : List Deed} {registry : Registry}
  {sprites : List Sprite}

/-! ## Calls of callers and clients -/

/-- A caller's handle has a place among the handles of the flat hub. -/
theorem exists_index (s : Scene) (i : ℕ) : ∃ j, s.flat.held[j]? = s.hub.held[i]? ∧
    (i < s.hub.held.length → s.flat.held.eraseIdx j = s.hub.held.eraseIdx i ++ s.worn) := by
  by_cases hi : i < s.hub.held.length
  · exact ⟨i, List.getElem?_append_left hi, fun _ => List.eraseIdx_append_of_lt_length hi _⟩
  · -- where callers have no handle, the flat hub must not find a sprite's
    refine ⟨s.flat.held.length, ?_, fun h => absurd h hi⟩
    rw [List.getElem?_eq_none le_rfl, List.getElem?_eq_none (Nat.le_of_not_lt hi)]

theorem flat_acquire (s : Scene) (ds : List Deed) (registry : Registry) (more : List Handle) :
    flat { s with hub := s.hub.acquire ds registry more } = s.flat.acquire ds registry more := by
  simp [flat, worn, Hub.acquire]

/-- A call that does not concern sprites is a call of the flat hub, with the same tree. -/
theorem exists_flat_step (s : Scene) (move : Move) :
    ∃ move', (s.step (.call move)).flat = s.flat.step move' ∧ move'.tree? = move.tree? := by
  cases move with
  | intern d => exact ⟨.intern d, s.flat_acquire .., rfl⟩
  | animate target d params => exact ⟨.animate target d params, s.flat_acquire .., rfl⟩
  | lookup id => exact ⟨.lookup id, s.flat_acquire .., rfl⟩
  | copy i =>
      obtain ⟨j, hj, -⟩ := s.exists_index i
      refine ⟨.copy j, (s.flat_acquire ..).trans ?_, rfl⟩
      rw [Hub.step, hj]
      rfl
  | part i k =>
      obtain ⟨j, hj, -⟩ := s.exists_index i
      refine ⟨.part j k, (s.flat_acquire ..).trans ?_, rfl⟩
      rw [Hub.step, hj]
      rfl
  | drop i =>
      obtain ⟨j, hj, herase⟩ := s.exists_index i
      refine ⟨.drop j, ?_, rfl⟩
      rw [step, Hub.step, Hub.step, hj]
      cases hi : s.hub.held[i]? with
      | none => rfl
      | some a =>
          have hlt := (List.getElem?_eq_some_iff.mp hi).1
          simp only [herase hlt]
          rfl
  | connect rank => exact ⟨.connect rank, rfl, rfl⟩
  | disconnect session =>
      refine ⟨.disconnect session, ?_, rfl⟩
      simp only [step, Hub.step, flat, worn, Hub.markEnded]
      split <;> rfl
  | close session =>
      refine ⟨.close session, ?_, rfl⟩
      simp only [step, Hub.step, flat, worn, Hub.markEnded]
      split <;> rfl
  | receive session => exact ⟨.receive session, rfl, rfl⟩
  | flush => exact ⟨.flush, rfl, rfl⟩

/-! ## Calls that concern sprites -/

/-- The handles of everybody but the `i`-th sprite. -/
def others (s : Scene) (i : ℕ) : Multiset Handle :=
  s.hub.held + ((s.sprites.eraseIdx i).flatMap Sprite.handles : List Handle)

theorem held_eq_of_perm (h : sprites.Perm (p :: s.sprites.eraseIdx i)) :
    (s.hub.held + (sprites.flatMap Sprite.handles : List Handle) : Multiset Handle) =
      p.handles + s.others i := by
  have hworn := Multiset.coe_eq_coe.mpr (h.flatMap_right Sprite.handles)
  rw [hworn, List.flatMap_cons, ← Multiset.coe_add, others, add_left_comm]

theorem flat_held (hp : s.sprites[i]? = some p) :
    (s.flat.held : Multiset Handle) = p.handles + s.others i := by
  obtain ⟨hi, rfl⟩ := List.getElem?_eq_some_iff.mp hp
  rw [flat, ← Multiset.coe_add]
  exact held_eq_of_perm (List.getElem_cons_eraseIdx_perm hi).symm

theorem set_perm (hp : s.sprites[i]? = some p) (p' : Sprite) :
    (s.sprites.set i p').Perm (p' :: s.sprites.eraseIdx i) :=
  List.set_perm_cons_eraseIdx (List.getElem?_eq_some_iff.mp hp).1 p'

theorem flatMap_handles_set (hp : s.sprites[i]? = some p) {p' : Sprite}
    (hsame : p'.handles = p.handles) : (s.sprites.set i p').flatMap Sprite.handles = s.worn := by
  rw [worn, List.flatMap_def, List.flatMap_def, List.map_set, hsame]
  congr 1
  refine List.ext_getElem? fun k => ?_
  rw [List.getElem?_set, List.length_map]
  split
  · next heq =>
      rw [if_pos (List.getElem?_eq_some_iff.mp hp).1, ← heq, List.getElem?_map, hp]
      rfl
  · rfl

/-- These deeds are all the difference between two scenes, as far as the registry and
the record are concerned. -/
structure ChangedBy (s : Scene) (ds : List Deed) (s' : Scene) : Prop where
  tacit : ∀ d ∈ ds, d.Tacit
  flat : s'.flat = { s.flat with
    registry := s'.flat.registry
    held := s'.flat.held
    history := s.flat.history ++ s.flat.registry.journal ds }
  course : s.flat.Steady → Course s.flat.registry s.flat.held ds s'.flat.registry s'.flat.held

theorem ChangedBy.refl (s : Scene) : s.ChangedBy [] s where
  tacit := by simp
  flat := by simp [Registry.journal, Scene.flat]
  course _ := .refl _ _

/-- What sprites hold is all that matters of them. -/
theorem ChangedBy.of_worn_eq (h : sprites.flatMap Sprite.handles = s.worn) :
    s.ChangedBy [] { s with sprites } where
  tacit := by simp
  flat := by simp [Registry.journal, Scene.flat]
  course _ := by
    have hflat : Scene.flat { s with sprites } = s.flat := by
      rw [Scene.flat, worn, h]
      rfl
    rw [hflat]
    exact .refl _ _

/-- Deeds by which the handles of one sprite change. -/
theorem changedBy_change (hp : s.sprites[i]? = some p) (more : List Handle)
    (htacit : ∀ d ∈ ds, d.Tacit)
    (hmore : (s.hub.held + (sprites.flatMap Sprite.handles : List Handle) : Multiset Handle) =
      more + s.others i)
    (hc : s.hub.registry.Balanced (p.handles + s.others i) →
      Course s.hub.registry (p.handles + s.others i) ds registry (more + s.others i)) :
    s.ChangedBy ds (s.change ds registry sprites) where
  tacit := htacit
  flat := rfl
  course hs := by
    have hheld := flat_held hp
    have hafter : ((s.change ds registry sprites).flat.held : Multiset Handle) =
        more + s.others i := by
      rw [← hmore, Multiset.coe_add]
      rfl
    rw [hheld, hafter]
    exact hc (hheld ▸ hs.balanced)

theorem tacit_setAppearanceDeeds (p : Sprite) (r : Registry) (d : Descriptor) :
    ∀ deed ∈ p.setAppearanceDeeds r d, deed.Tacit := by
  intro deed h
  rw [Sprite.setAppearanceDeeds] at h
  split at h
  · exact Registry.tacit_internDeeds r d deed h
  · rcases List.mem_append.mp h with h | h
    · exact Registry.tacit_internDeeds r d deed h
    · exact Registry.tacit_releaseAllDeeds _ _ deed h

/-- The deeds of a call that concerns a sprite. -/
def deeds (s : Scene) : SpriteCall → List Deed
  | .setAppearance i d =>
    s.sprites[i]?.elim [] fun p => p.setAppearanceDeeds s.hub.registry d
  | .clear i | .despawn i =>
    s.sprites[i]?.elim [] fun p => s.hub.registry.releaseAllDeeds p.handles
  | .copy i | .borrow i => s.sprites[i]?.elim [] fun p => p.handles.map .retain
  | .spawn | .place _ _ => []

/-- A call that concerns a sprite does nothing but deeds of the registry. -/
theorem changedBy_stepSprite (s : Scene) (call : SpriteCall) :
    s.ChangedBy (s.deeds call) (s.stepSprite call) := by
  cases call with
  | spawn =>
      refine .of_worn_eq ?_
      simp [worn, Sprite.handles, Sprite.empty]
  | setAppearance i d =>
      rw [stepSprite, deeds]
      split
      · next p hp =>
          rw [hp]
          exact changedBy_change hp _ (tacit_setAppearanceDeeds p _ d)
            (held_eq_of_perm (set_perm hp _)) Sprite.setAppearance_course
      · next hnone =>
          rw [hnone]
          exact .refl s
  | clear i =>
      rw [stepSprite, deeds]
      split
      · next p hp =>
          rw [hp]
          refine changedBy_change hp [] (Registry.tacit_releaseAllDeeds _ _)
            (held_eq_of_perm (set_perm hp _)) fun h => ?_
          rw [Multiset.coe_nil, zero_add]
          exact Registry.releaseAll_course _ p.handles _ h
      · next hnone =>
          rw [hnone]
          exact .refl s
  | place i location =>
      rw [stepSprite]
      split
      · next p hp => exact .of_worn_eq (flatMap_handles_set hp rfl)
      · exact .refl s
  | copy i =>
      rw [stepSprite, deeds]
      split
      · next p hp =>
          have hworn : (s.hub.held + ((s.sprites ++ [p]).flatMap Sprite.handles : List Handle) :
              Multiset Handle) = (p.handles ++ p.handles : List Handle) + s.others i := by
            have hheld := flat_held hp
            rw [flat, ← Multiset.coe_add] at hheld
            rw [List.flatMap_append, List.flatMap_singleton, ← Multiset.coe_add, ← add_assoc,
              ← Multiset.coe_add, add_assoc _ _ (s.others i), ← hheld, add_comm]
            rfl
          rw [hp]
          refine changedBy_change hp _ (Registry.tacit_map_retain _) hworn fun h => ?_
          rw [← Multiset.coe_add, add_assoc]
          refine Registry.retainAll_course _ p.handles _ fun a ha => h.find?_of_mem ?_
          exact Multiset.mem_add.mpr (Or.inl (Multiset.mem_coe.mpr ha))
      · next hnone =>
          rw [hnone]
          exact .refl s
  | despawn i =>
      rw [stepSprite, deeds]
      split
      · next p hp =>
          rw [hp]
          refine changedBy_change hp [] (Registry.tacit_releaseAllDeeds _ _) ?_ fun h => ?_
          · rw [Multiset.coe_nil, zero_add, others]
          · rw [Multiset.coe_nil, zero_add]
            exact Registry.releaseAll_course _ p.handles _ h
      · next hnone =>
          rw [hnone]
          exact .refl s
  | borrow i =>
      let more := (s.sprites[i]?.map Sprite.handles).toList.flatten
      have hdeeds : s.deeds (.borrow i) = more.map .retain := by
        rw [deeds]
        cases h : s.sprites[i]? <;> simp [more, h]
      rw [hdeeds]
      refine ⟨Registry.tacit_map_retain _, rfl, fun hs => ?_⟩
      have hheld : ((s.stepSprite (.borrow i)).flat.held : Multiset Handle) =
          more + s.flat.held := by
        rw [stepSprite, Hub.retain, flat_acquire, Hub.acquire, ← Multiset.coe_add]
      rw [hheld]
      refine Registry.retainAll_course _ more _ fun a ha => hs.balanced.find?_of_mem ?_
      obtain ⟨as, has, ha⟩ := List.mem_flatten.mp ha
      obtain ⟨p, hp, rfl⟩ := Option.map_eq_some_iff.mp (Option.mem_toList.mp has)
      rw [flat_held hp]
      exact Multiset.mem_add.mpr (Or.inl (Multiset.mem_coe.mpr ha))

/-! ## Every run -/

theorem ChangedBy.steady {s' : Scene} (hc : s.ChangedBy ds s') (hs : s.flat.Steady) :
    s'.flat.Steady := by
  have hcourse := hc.course hs
  rw [hc.flat] at hcourse ⊢
  exact hs.of_course hcourse rfl rfl

theorem ChangedBy.fair {s' : Scene} (hc : s.ChangedBy ds s') (hs : s.flat.Steady)
    (hf : s.flat.Fair) : s'.flat.Fair := by
  have hmessages := Registry.journal_of_quiet s.flat.registry (Deed.quiet_of_tacit hc.tacit)
  rw [hc.flat]
  exact hf.of_history_append hs hmessages rfl rfl rfl rfl rfl

theorem steady_step (hs : s.flat.Steady) (act : Act) : (s.step act).flat.Steady := by
  cases act with
  | call move =>
      obtain ⟨move', hmove, -⟩ := s.exists_flat_step move
      rw [hmove]
      exact hs.step move'
  | sprite call => exact (s.changedBy_stepSprite call).steady hs

theorem fair_step (hs : s.flat.Steady) (hf : s.flat.Fair) (act : Act) : (s.step act).flat.Fair := by
  cases act with
  | call move =>
      obtain ⟨move', hmove, -⟩ := s.exists_flat_step move
      rw [hmove]
      exact hf.step hs move'
  | sprite call => exact (s.changedBy_stepSprite call).fair hs hf

theorem steady_foldl (hs : s.flat.Steady) (acts : List Act) :
    (acts.foldl step s).flat.Steady := by
  induction acts generalizing s with
  | nil => exact hs
  | cons act acts ih => exact ih (steady_step hs act)

/-- The record of every run is true. -/
theorem steady_run (maxDepth : ℕ) (acts : List Act) : (run maxDepth acts).flat.Steady :=
  steady_foldl (s := start maxDepth) (Hub.steady_start maxDepth) acts

theorem fair_foldl (hs : s.flat.Steady) (hf : s.flat.Fair) (acts : List Act) :
    (acts.foldl step s).flat.Fair := by
  induction acts generalizing s with
  | nil => exact hf
  | cons act acts ih => exact ih (steady_step hs act) (fair_step hs hf act)

theorem fair_run (maxDepth : ℕ) (acts : List Act) : (run maxDepth acts).flat.Fair :=
  fair_foldl (s := start maxDepth) (Hub.steady_start maxDepth) (Hub.fair_start maxDepth) acts

end Scene
end AppearanceSync
