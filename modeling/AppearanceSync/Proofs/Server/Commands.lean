import AppearanceSync.Proofs.Server.Basic

/-!
# Commands leave nothing behind

A fade takes a handle to the faded appearance before the sprite gives the old one up, and takes
another to announce the animation.  So at the end the sprite holds what the animation leads to, and
nothing else is held that was not held before.
-/

namespace AppearanceSync

open Registry (added removed)

theorem Sprite.setAppearance_ofProperties (sprite : Sprite) (r : Registry)
    (properties : Properties) :
    let t := r.internTree (.ofProperties properties)
    sprite.setAppearance r (.ofProperties properties) =
      ({ sprite with appearance := some t.2 }, sprite.release t.1, .ok ()) := by
  rw [Sprite.setAppearance, Registry.intern_ofProperties]

/-- The entity that a command names. -/
def Command.entity? : Command → Option EntityId
  | .spawn .. => none
  | .despawn id | .fade id .. => some id

namespace Server

variable {s : Server} {e : EntityId} {m : MapSprite} {a : Handle}

/-! ## Spawning -/

theorem spawn_ofProperties (s : Server) (properties : Properties) (position : GridPosition) :
    let t := s.registry.internTree (.ofProperties properties)
    s.spawn (.ofProperties properties) position =
      if s.ids.hasRoom then
        ({ s with registry := t.1 }.addSprite ⟨⟨some t.2, none⟩, position⟩).1
      else { s with registry := t.1.release t.2 } := by
  rw [spawn, Sprite.setAppearance_ofProperties]
  rfl

theorem Tidy.spawn (h : s.Tidy) (properties : Properties) (position : GridPosition) :
    (s.spawn (.ofProperties properties) position).Tidy := by
  have hcourse := Registry.internTree_course s.registry (.ofProperties properties) _ h.balanced
  have hbalanced := hcourse.balanced h.balanced
  have hshallow := h.shallow.internTree properties
  rw [spawn_ofProperties]
  split
  · next hroom =>
      refine ⟨h.rows.push hroom rfl, ?_, hshallow⟩
      rw [addSprite, Table.worn_push]
      exact hbalanced
  · exact ⟨h.rows, (Registry.release_course _ _ _ hbalanced).balanced hbalanced,
      hshallow.release hbalanced⟩

/-! ## Despawning -/

theorem despawn_of_unused (hunused : s.ids.isUsed e = false) : (s.despawn e).1 = s := by
  have hgive : s.ids.giveBack e = (s.ids, false) := by
    rw [EntityIds.giveBack, hunused]
    rfl
  rw [despawn, hgive]

theorem despawn_of_used (hused : s.ids.isUsed e = true) :
    (s.despawn e).1 =
      { s with
        ids := (s.ids.giveBack e).1
        registry := (s.sprites.find? e).toList.foldl (fun r m => m.sprite.release r) s.registry
        sprites := s.sprites.erase e
        viewers := s.viewers.erase e } := by
  have hgive : s.ids.giveBack e = ((s.ids.giveBack e).1, true) := by
    rw [← hused, ← EntityIds.snd_giveBack]
  rw [despawn, hgive]

theorem Tidy.despawn (h : s.Tidy) (e : EntityId) : (s.despawn e).1.Tidy := by
  cases hused : s.ids.isUsed e with
  | false =>
      rw [despawn_of_unused hused]
      exact h
  | true =>
      have hrows := h.rows.giveBack hused
      rw [despawn_of_used hused]
      cases hm : s.sprites.find? e with
      | none =>
          rw [Table.erase_of_find?_eq_none hm] at hrows ⊢
          exact ⟨hrows, h.balanced, h.shallow⟩
      | some m =>
          have hbalanced := h.balanced
          rw [Table.worn_of_perm (Table.perm_erase hm)] at hbalanced
          exact ⟨hrows, (Registry.releaseAll_course _ _ _ hbalanced).balanced hbalanced,
            h.shallow.releaseAll hbalanced⟩

theorem despawn_of_find?_eq_none (hm : s.sprites.find? e = none) :
    (s.despawn e).1.sprites = s.sprites ∧ (s.despawn e).1.registry = s.registry ∧
      (s.despawn e).1.broadcaster = s.broadcaster := by
  cases hused : s.ids.isUsed e with
  | false =>
      rw [despawn_of_unused hused]
      exact ⟨rfl, rfl, rfl⟩
  | true =>
      rw [despawn_of_used hused, hm, Table.erase_of_find?_eq_none hm]
      exact ⟨rfl, rfl, rfl⟩

/-! ## Fading -/

theorem fade_of_find?_eq_none (hm : s.sprites.find? e = none) (alpha : UInt8) (millis : UInt64) :
    s.fade e alpha millis = s := by
  rw [fade, appearanceOf?, hm]
  rfl

theorem setAppearance_of_find? (hm : s.sprites.find? e = some m) (properties : Properties) :
    let t := s.registry.internTree (.ofProperties properties)
    s.setAppearance e (.ofProperties properties) =
      (({ s with registry := m.sprite.release t.1 } : Server).setSprite e
        { m.sprite with appearance := some t.2 }, some (.ok ())) := by
  rw [setAppearance, hm]
  simp only [Sprite.setAppearance_ofProperties]

theorem fade_of_setAppearance {properties : Properties} {s' : Server} {alpha : UInt8}
    (hcopy : s.appearanceOf? e = some (.ofProperties properties))
    (hset : s.setAppearance e (.ofProperties { properties with alpha }) = (s', some (.ok ())))
    (millis : UInt64) :
    s.fade e alpha millis =
      s'.announceAnimation (.entity e) (.ofProperties { properties with alpha })
        { PlayParams.standard with duration := .ofMillis millis.toNat } := by
  rw [fade, hcopy]
  simp only [Descriptor.ofProperties] at hset ⊢
  rw [hset]

theorem announceAnimation_of_ok {target : Target} {d : Descriptor} {params : PlayParams}
    {r : Registry} (h : s.registry.animate target d params = (r, .ok a)) :
    s.announceAnimation target d params = { s with registry := r.release a } := by
  rw [announceAnimation, h]

/-- A fade gives the sprite a new handle, and neither announcing the animation nor anything else
leaves a handle behind. -/
theorem Tidy.exists_fade (h : s.Tidy) (hm : s.sprites.find? e = some m) (alpha : UInt8)
    (millis : UInt64) :
    ∃ old new r, m.sprite.appearance = some old ∧
      s.fade e alpha millis =
        ({ s with registry := r } : Server).setSprite e { m.sprite with appearance := some new } ∧
      s.registry.AnimatedExchange old { old.properties with alpha } (.entity e)
        { PlayParams.standard with duration := .ofMillis millis.toNat } new r ∧
      r.Balanced (new ::ₘ (s.sprites.erase e).worn) ∧ r.Shallow := by
  obtain ⟨old, hold⟩ := h.rows.shown (e, m) (Table.mem_rows_of_find? hm)
  have hhandles : m.sprite.handles = [old] := by
    rw [Sprite.handles, hold]
    rfl
  have hrelease (r : Registry) : m.sprite.release r = r.release old := by
    rw [Sprite.release, hold]
    rfl
  have hbalanced := h.balanced
  rw [Table.worn_of_perm (Table.perm_erase hm), hhandles, Multiset.coe_singleton,
    Multiset.singleton_add] at hbalanced
  have hleaf : old.IsLeaf :=
    h.shallow old.id old (hbalanced.find?_of_mem (Multiset.mem_cons_self old _))
  have hcopy : s.appearanceOf? e = some (.ofProperties old.properties) := by
    rw [appearanceOf?, hm, Option.bind_some, hold, Option.bind_some, hleaf.toDescriptor]
    rfl
  let faded : Properties := { old.properties with alpha }
  have hset := setAppearance_of_find? hm faded
  simp only [hrelease] at hset
  obtain ⟨r, hanimate, hexchange, hafter, hshallow⟩ := hbalanced.exists_animatedExchange h.shallow
    faded (.entity e) { PlayParams.standard with duration := .ofMillis millis.toNat }
  refine ⟨old, _, _, hold, ?_, hexchange, hafter, hshallow⟩
  rw [fade_of_setAppearance hcopy hset, announceAnimation_of_ok hanimate]
  rfl

theorem Tidy.fade (h : s.Tidy) (e : EntityId) (alpha : UInt8) (millis : UInt64) :
    (s.fade e alpha millis).Tidy := by
  cases hm : s.sprites.find? e with
  | none =>
      rw [fade_of_find?_eq_none hm]
      exact h
  | some m =>
      obtain ⟨old, new, r, -, hfade, -, hbalanced, hshallow⟩ := h.exists_fade hm alpha millis
      let change : MapSprite → MapSprite := fun m' =>
        { m' with sprite := { m.sprite with appearance := some new } }
      have hrows : Inhabits s.ids (s.sprites.modify e change) := h.rows.modify hm change rfl
      have hworn : (s.sprites.modify e change).worn = new ::ₘ (s.sprites.erase e).worn :=
        Table.worn_of_perm (Table.perm_modify h.rows.nodup hm change)
      rw [← hworn] at hbalanced
      rw [hfade]
      exact ⟨hrows, hbalanced, hshallow⟩

theorem find?_setSprite (s : Server) (e other : EntityId) (sprite : Sprite) :
    (s.setSprite e sprite).sprites.find? other =
      if other = e then (s.sprites.find? other).map fun m => { m with sprite }
      else s.sprites.find? other :=
  Table.find?_modify s.sprites e other _

/-- An entity's sprite shows what the animation of its fade leads to, and all others are as
before. -/
theorem Tidy.carriesOut_fade (h : s.Tidy) (hm : s.sprites.find? e = some m) (alpha : UInt8)
    (millis : UInt64) :
    let s' := s.fade e alpha millis
    ∃ old new, s.Shows e old ∧ s'.Shows e new ∧
      (∀ other, other ≠ e → s'.sprites.find? other = s.sprites.find? other) ∧
      s.registry.AnimatedExchange old { old.properties with alpha } (.entity e)
        { PlayParams.standard with duration := .ofMillis millis.toNat } new s'.registry := by
  intro s'
  obtain ⟨old, new, r, hold, hfade, hexchange, -, -⟩ := h.exists_fade hm alpha millis
  have hs' : s'.Tidy := h.fade e alpha millis
  have heq : s' = _ := hfade
  let sprite : Sprite := { m.sprite with appearance := some new }
  have hfind (other : EntityId) : s'.sprites.find? other =
      if other = e then (s.sprites.find? other).map fun m => { m with sprite }
      else s.sprites.find? other := by
    rw [heq]
    exact find?_setSprite _ e other sprite
  have hhere : s'.sprites.find? e = some { m with sprite } := by
    rw [hfind, if_pos rfl, hm]
    rfl
  refine ⟨old, new, h.shows_iff.mpr ⟨m, hm, hold⟩, hs'.shows_iff.mpr ⟨_, hhere, rfl⟩, ?_, ?_⟩
  · intro other hother
    rw [hfind, if_neg hother]
  · rw [heq]
    exact hexchange

/-! ## Every command -/

theorem Tidy.apply_of_unused (h : s.Tidy) {c : Command} (hentity : c.entity? = some e)
    (hunused : s.ids.isUsed e = false) : s.apply c = s := by
  cases c with
  | spawn icon iconState position => cases hentity
  | despawn id =>
      obtain rfl := Option.some.inj hentity
      exact despawn_of_unused hunused
  | fade id alpha millis =>
      obtain rfl := Option.some.inj hentity
      exact fade_of_find?_eq_none (h.rows.find?_of_unused hunused) alpha millis

theorem apply_of_find?_eq_none {c : Command} (hentity : c.entity? = some e)
    (hm : s.sprites.find? e = none) :
    (s.apply c).sprites = s.sprites ∧ (s.apply c).registry = s.registry ∧
      (s.apply c).broadcaster = s.broadcaster := by
  cases c with
  | spawn icon iconState position => cases hentity
  | despawn id =>
      obtain rfl := Option.some.inj hentity
      exact despawn_of_find?_eq_none hm
  | fade id alpha millis =>
      obtain rfl := Option.some.inj hentity
      rw [apply, fade_of_find?_eq_none hm]
      exact ⟨rfl, rfl, rfl⟩

theorem Tidy.apply (h : s.Tidy) (c : Command) : (s.apply c).Tidy := by
  cases c with
  | spawn icon iconState position => exact h.spawn _ position
  | despawn id => exact h.despawn id
  | fade id alpha millis => exact h.fade id alpha millis

/-! ## Every run -/

theorem Tidy.step (h : s.Tidy) (i : Input) : (s.step i).Tidy := by
  cases i with
  | command c => exact h.apply c
  | tick => exact h.update
  | viewer v => exact h.viewer v
  | connect rank => exact h.connect rank
  | disconnect session => exact ⟨h.rows, h.balanced, h.shallow⟩
  | close session => exact ⟨h.rows, h.balanced, h.shallow⟩
  | receive session => exact ⟨h.rows, h.balanced, h.shallow⟩

theorem tidy_run (c : Config) (inputs : List Input) : (run c inputs).Tidy := by
  rw [run]
  induction inputs using List.reverseRecOn with
  | nil => exact tidy_start c
  | append_singleton inputs i ih =>
      rw [List.foldl_concat]
      exact ih.step i

/-- In every run of commands and turns, with sessions that come and go at any time, what is
registered after a turn is the plain appearance and what the sprites of entities show.  A command
that names an entity that is not there changes nothing, and one that names an entity without a
sprite changes neither sprites nor what is registered and announces nothing.  Whenever an entity
has a sprite, a fade is carried out: the sprite shows the faded appearance from then on, all other
sprites are as before, and one animation is announced, which leads to what the sprite shows, behind
the addition of the new appearance and the removal of the old. -/
theorem commands_leave_nothing_behind (c : Config) (inputs : List Input) :
    let s := run c inputs
    let ticked := s.step .tick
    ticked.registry.outbox.waiting = #[] ∧
    (∀ id, ticked.registry.contains id = true ↔
      id = Registry.standard.id ∨ ∃ e a, ticked.Shows e a ∧ a.id = id) ∧
    (∀ command e, command.entity? = some e → s.ids.isUsed e = false →
      s.step (.command command) = s) ∧
    (∀ command e, command.entity? = some e → s.sprites.find? e = none →
      (s.step (.command command)).sprites = s.sprites ∧
      (s.step (.command command)).registry = s.registry ∧
      (s.step (.command command)).broadcaster = s.broadcaster) ∧
    ∀ e m alpha millis, s.sprites.find? e = some m →
      let s' := s.step (.command (.fade e alpha millis))
      ∃ old new, s.Shows e old ∧ s'.Shows e new ∧
        (∀ other, other ≠ e → s'.sprites.find? other = s.sprites.find? other) ∧
        s.registry.AnimatedExchange old { old.properties with alpha } (.entity e)
          { PlayParams.standard with duration := .ofMillis millis.toNat } new s'.registry := by
  intro s ticked
  have h : s.Tidy := tidy_run c inputs
  have hticked : ticked.Tidy := h.step .tick
  have hwaiting : ticked.registry.outbox.waiting = #[] := h.waiting_update
  refine ⟨hwaiting, hticked.contains_iff_of_waiting hwaiting, ?_, ?_, ?_⟩
  · exact fun command e hentity hunused => h.apply_of_unused hentity hunused
  · exact fun command e hentity hm => apply_of_find?_eq_none hentity hm
  · exact fun e m alpha millis hm => h.carriesOut_fade hm alpha millis

/-- A lamp is dimmed while a viewer looks at it. -/
theorem commands_leave_nothing_behind_dimmed :
    let lamp : EntityId := ⟨4294967296⟩
    let viewer : EntityId := ⟨4294967297⟩
    let s := run .standard
      [.command (.spawn ⟨7⟩ "lit" ⟨0, 0⟩), .viewer ⟨⟨1⟩, ⟨0, 0⟩⟩, .tick]
    let s' := s.step (.command (.fade lamp 128 250))
    (s.ids.isUsed ⟨77⟩ = false ∧ s.step (.command (.despawn ⟨77⟩)) = s) ∧
    (s.ids.isUsed viewer = true ∧ s.sprites.find? viewer = none ∧
      (s.step (.command (.fade viewer 128 250))).registry = s.registry) ∧
    ∃ old new, s.Shows lamp old ∧ s'.Shows lamp new ∧ s'.registry.outbox.waiting.toList =
      [added (.ofProperties { old.properties with alpha := 128 }), removed old.id,
        .message (.animate ⟨.entity lamp, new.id,
          { PlayParams.standard with duration := .ofMillis 250 }⟩)] := by
  intro lamp viewer s s'
  have hnobody : s.ids.isUsed ⟨77⟩ = false := by decide +kernel
  have hviewer : s.ids.isUsed viewer = true := by decide +kernel
  have hrow : (s.sprites.find? viewer).isNone := by decide +kernel
  have hlamp : (s.sprites.find? lamp).isSome := by decide +kernel
  have hnothing : s.registry.outbox.waiting.size = 0 := by decide +kernel
  have hthree : s'.registry.outbox.waiting.size = 3 := by decide +kernel
  obtain ⟨-, -, hunused, hwithout, hfade⟩ := commands_leave_nothing_behind .standard
    [.command (.spawn ⟨7⟩ "lit" ⟨0, 0⟩), .viewer ⟨⟨1⟩, ⟨0, 0⟩⟩, .tick]
  have hrow : s.sprites.find? viewer = none := Option.isNone_iff_eq_none.mp hrow
  obtain ⟨m, hm⟩ := Option.isSome_iff_exists.mp hlamp
  obtain ⟨old, new, hold, hnew, -, hexchange⟩ := hfade lamp m 128 250 hm
  refine ⟨⟨hnobody, hunused _ _ rfl hnobody⟩, ⟨hviewer, hrow, (hwithout _ _ rfl hrow).2.1⟩,
    old, new, hold, hnew, ?_⟩
  have hwaits := hexchange.waiting
  rw [Array.eq_empty_of_size_eq_zero hnothing, List.nil_append] at hwaits
  -- as many as three are announced only if the new look is added and the old one removed
  have hlength := congrArg List.length hwaits
  rw [Array.length_toList, hthree] at hlength
  split_ifs at hwaits hlength
  · cases hlength
  · cases hlength
  · cases hlength
  · exact hwaits

end Server
end AppearanceSync
