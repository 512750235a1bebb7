import AppearanceSync.Proofs.Shader.Sweeping

/-!
# Which texture a shader has

A texture comes into a shader in two ways: a lookup binds one, unless an icon has to be loaded
for it, and a loader delivers one.  The latest of these stays, whenever the loader was asked.  So
the latest lookup decides only as long as no loader delivers what an earlier lookup asked for,
and a lookup that has to wait for a loader leaves what was bound before.
-/

namespace AppearanceSync

namespace TextureSlot

/-- What a lookup binds by itself: a render target, or nothing visible if there is no icon. -/
def binds? (slot : TextureSlot) (sources : String → Option Texture) : Option Texture :=
  (slot.source? sources).or (if slot.icon.isNone then some .transparent else none)

end TextureSlot

namespace ShaderCache

variable {c : ShaderCache} {f g : Filter} {n : ℕ} {slot : TextureSlot}
  {sources : String → Option Texture}

/-- No filter determines the texture that it needs. -/
theorem param?_ofFilter_slot (hslot : TextureSlot.ofFilter? f = some slot) :
    (Shader.ofFilter f).param? slot.param = none := by
  cases f with
  | alpha mask =>
      obtain rfl := Option.some.inj hslot
      rfl
  | displace map =>
      obtain rfl := Option.some.inj hslot
      rfl
  | _ => cases hslot

/-- A lookup sets the texture that it binds by itself. -/
theorem lookup_of_slot (c : ShaderCache) (hslot : TextureSlot.ofFilter? f = some slot)
    (sources : String → Option Texture) :
    (c.lookup f sources).1 =
      match slot.binds? sources with
      | some texture => (c.acquire f).1.setParam (c.acquire f).2 slot.param (.texture texture)
      | none => (c.acquire f).1 := by
  simp only [lookup, hslot, bindTexture, TextureSlot.binds?]
  cases slot.source? sources with
  | some texture => rfl
  | none => cases slot.icon <;> rfl

/-- A lookup changes no shader but the one that it hands out. -/
theorem shader?_lookup_of_ne (hlt : n < c.shaders.size) (hne : n ≠ (c.acquire g).2) :
    (c.lookup g sources).1.shader? n = c.shader? n := by
  rw [← shader?_acquire_of_lt g hlt]
  obtain h | ⟨own, -, ⟨texture, h⟩ | ⟨icon, h⟩⟩ := c.lookup_cases g sources
  all_goals rw [h]
  rw [shader?_setParam, if_neg hne]

/-- A shader is handed out as it was; a new one has what its filter determines. -/
theorem shader?_acquire (hkept : ∀ n, c.number? f = some n → c.Made n f) :
    (c.acquire f).1.shader? (c.acquire f).2 =
      some ((c.shader? (c.acquire f).2).getD (.ofFilter f)) := by
  cases hn : c.number? f with
  | none =>
      have hnew : c.shader? c.shaders.size = none := Array.getElem?_eq_none (Nat.le_refl _)
      rw [acquire_of_absent hn, hnew]
      exact Array.getElem?_push_size
  | some n =>
      obtain ⟨s, hs, -⟩ := hkept n hn
      rw [acquire_of_number? hn, hs]
      exact hs

end ShaderCache

namespace Renderer

/-- What stands under a name in the shader of a number. -/
def bound (r : Renderer) (n : ℕ) (name : String) : Option ShaderParam :=
  (r.cache.shader? n).bind (·.param? name)

/-- The texture that a call delivers to the shader of a number. -/
def delivers? (r : Renderer) (n : ℕ) : Call → Option Texture
  | .deliver place texture =>
    match r.asked[place]? with
    | some q => if q.shader = n then some texture else none
    | none => none
  | _ => none

/-- The textures that calls deliver to the shader of a number, in order. -/
def delivered (r : Renderer) (n : ℕ) : List Call → List Texture
  | [] => []
  | c :: calls => (r.delivers? n c).toList ++ (r.call c).delivered n calls

variable {r : Renderer} {calls : List Call} {c : Call} {f g : Filter} {m n : ℕ} {slot : TextureSlot}
  {sources : String → Option Texture} {q : TextureRequest}

theorem delivered_concat (r : Renderer) (n : ℕ) (calls : List Call) (c : Call) :
    r.delivered n (calls ++ [c]) = r.delivered n calls ++ ((r.run calls).delivers? n c).toList := by
  induction calls generalizing r with
  | nil => exact List.append_nil _
  | cons first calls ih =>
      rw [List.cons_append, delivered, ih, delivered, List.append_assoc]
      rfl

/-! ## Shaders of one filter -/

/-- The shader of this number was made for the filter, and no other filter has it. -/
structure Owns (r : Renderer) (f : Filter) (n : ℕ) : Prop where
  made : r.cache.Made n f
  only : ∀ g, r.cache.number? g = some n → g = f

/-- Only a lookup makes a shader, and it makes one for the filter that is looked up. -/
theorem Sound.exists_lookup_of_new (hr : r.Sound) (hnone : r.cache.number? f = none)
    (hn : (r.call c).cache.number? f = some n) : ∃ sources, c = .lookup f sources := by
  cases c with
  | lookup g sources =>
      rw [Renderer.call, ShaderCache.number?_lookup] at hn
      split at hn
      · next heq => exact ⟨sources, by rw [heq]⟩
      · rw [hnone] at hn
        cases hn
  | reset =>
      rw [Renderer.call, ShaderCache.number?_resetUsage, hnone] at hn
      cases hn
  | sweep =>
      have hold := hr.wellFormed.number?_of_sweep hn
      rw [hnone] at hold
      cases hold
  | deliver place texture =>
      rw [ShaderCache.number?_eq_of_entries_eq (r.entries_deliver place texture), hnone] at hn
      cases hn

theorem Sound.owns_call (hr : r.Sound) (h : r.Owns f n) (c : Call) : (r.call c).Owns f n := by
  refine ⟨hr.made_call h.made c, fun g hg => ?_⟩
  obtain hold | ⟨-, rfl, -⟩ := number?_call hr hg
  · exact h.only g hold
  · exact absurd h.made.lt (Nat.lt_irrefl _)

/-- In every run each filter has a shader of its own. -/
theorem owns_of_number? (hn : (start.run calls).cache.number? f = some n) :
    (start.run calls).Owns f n := by
  induction calls using List.reverseRecOn generalizing f n with
  | nil => cases hn
  | append_singleton calls c ih =>
      have hr := sound_start.run calls
      rw [run_concat] at hn ⊢
      obtain hold | ⟨hnone, rfl, hmade⟩ := number?_call hr hn
      · exact hr.owns_call (ih hold) c
      · refine ⟨hmade, fun g hg => ?_⟩
        obtain hold | ⟨hnone', -, -⟩ := number?_call hr hg
        · exact absurd (hr.wellFormed.number?_lt hold) (Nat.lt_irrefl _)
        · obtain ⟨sources, rfl⟩ := hr.exists_lookup_of_new hnone hn
          obtain ⟨sources', heq⟩ := hr.exists_lookup_of_new hnone' hg
          exact (Call.lookup.inj heq).1.symm

/-- Without a lookup a filter has no shader that it did not have before. -/
theorem Sound.number?_of_run (hr : r.Sound) (hcalls : ∀ c ∈ calls, c.filter? ≠ some f)
    (hn : (r.run calls).cache.number? f = some n) : r.cache.number? f = some n := by
  induction calls using List.reverseRecOn with
  | nil => exact hn
  | append_singleton calls c ih =>
      have hlast := hcalls c (List.mem_append_right _ (List.mem_singleton.mpr rfl))
      rw [run_concat] at hn
      obtain hold | ⟨hnone, -, -⟩ := number?_call (hr.run calls) hn
      · exact ih (fun c hc => hcalls c (List.mem_append_left _ hc)) hold
      · obtain ⟨sources, rfl⟩ := (hr.run calls).exists_lookup_of_new hnone hn
        exact absurd rfl hlast

theorem Owns.given_ne (h : r.Owns f n) (hne : g ≠ f) (sources : String → Option Texture) :
    r.given g sources ≠ n := by
  cases hg : r.cache.number? g with
  | none =>
      rw [given_of_absent hg]
      exact Nat.ne_of_gt h.made.lt
  | some m =>
      rw [given_of_number? hg]
      rintro rfl
      exact hne (h.only g hg)

/-- A loader that was asked for a filter's shader delivers the texture that the filter needs. -/
theorem Sound.param_of_asked (hr : r.Sound) (hq : q ∈ r.asked) (hmade : r.cache.Made q.shader f)
    (hslot : TextureSlot.ofFilter? f = some slot) : q.param = slot.param := by
  obtain ⟨g, own, ⟨s, hs, hg⟩, hown, hparam⟩ := hr.aimed q hq
  obtain ⟨s', hs', hf⟩ := hmade
  obtain rfl := Option.some.inj (hs.symm.trans hs')
  obtain ⟨own', hown', heq⟩ :=
    Shader.exists_slot_of_program (hf.program.symm.trans hg.program) hown
  obtain rfl := Option.some.inj (hslot.symm.trans hown')
  rw [hparam, heq]

/-- A lookup that finds its render target asks for nothing. -/
theorem asks_of_source (hslot : TextureSlot.ofFilter? f = some slot) {target : Texture}
    (h : slot.source? sources = some target) : r.asks f sources = none := by
  simp only [asks, ShaderCache.lookup, hslot, ShaderCache.bindTexture, h]

/-! ## What one call binds -/

theorem bound_call_lookup (hr : r.Sound) (hslot : TextureSlot.ofFilter? f = some slot)
    (sources : String → Option Texture) :
    (r.call (.lookup f sources)).bound (r.given f sources) slot.param =
      ((slot.binds? sources).map ShaderParam.texture).or
        (r.bound (r.given f sources) slot.param) := by
  have hacquired : (r.cache.acquire f).1.shader? (r.given f sources) =
      some ((r.cache.shader? (r.given f sources)).getD (.ofFilter f)) := by
    rw [given, ShaderCache.lookup_number]
    exact ShaderCache.shader?_acquire (hr.kept f)
  have hbefore : ((r.cache.shader? (r.given f sources)).getD (.ofFilter f)).param? slot.param =
      r.bound (r.given f sources) slot.param := by
    rw [bound]
    cases r.cache.shader? (r.given f sources) with
    | none => exact ShaderCache.param?_ofFilter_slot hslot
    | some s => rfl
  have hgiven : (r.cache.acquire f).2 = r.given f sources := by
    rw [given, ShaderCache.lookup_number]
  rw [bound, call, ShaderCache.lookup_of_slot r.cache hslot sources, hgiven]
  cases slot.binds? sources with
  | none =>
      simp only [hacquired, Option.bind_some, hbefore]
      rfl
  | some texture =>
      simp only [ShaderCache.shader?_setParam, hacquired, if_pos, Option.map_some,
        Option.bind_some, Shader.param?_set]
      rfl

/-- A call that does not look the filter up leaves the texture, or delivers another one. -/
theorem Sound.bound_call (hr : r.Sound) (h : r.Owns f n)
    (hslot : TextureSlot.ofFilter? f = some slot) (hc : c.filter? ≠ some f) :
    (r.call c).bound n slot.param =
      ((r.delivers? n c).map ShaderParam.texture).or (r.bound n slot.param) := by
  cases c with
  | lookup g sources =>
      have hne : r.given g sources ≠ n := h.given_ne (fun heq => hc (congrArg some heq)) sources
      rw [given, ShaderCache.lookup_number] at hne
      rw [bound, Renderer.call, ShaderCache.shader?_lookup_of_ne h.made.lt hne.symm]
      rfl
  | reset => rfl
  | sweep => rfl
  | deliver place texture =>
      cases hq : r.asked[place]? with
      | none =>
          rw [Renderer.call, delivers?, hq]
          rfl
      | some q =>
          obtain ⟨s, hs, -⟩ := h.made
          obtain ⟨s', hs', -, hparams⟩ := param?_call_deliver hq texture hs
          rw [bound, hs', Option.bind_some, hparams, delivers?, hq, bound, hs, Option.bind_some]
          by_cases heq : q.shader = n
          · have hparam : q.param = slot.param :=
              hr.param_of_asked (List.mem_of_getElem? hq) (heq ▸ h.made) hslot
            rw [if_pos ⟨heq.symm, hparam.symm⟩]
            simp only [heq, if_true]
            rfl
          · rw [if_neg fun hboth => heq hboth.1.symm]
            simp only [heq, if_false]
            rfl

/-! ## What a run leaves bound -/

theorem Sound.bound_run (hr : r.Sound) (h : r.Owns f n)
    (hslot : TextureSlot.ofFilter? f = some slot) (hcalls : ∀ c ∈ calls, c.filter? ≠ some f) :
    (r.run calls).bound n slot.param =
      ((r.delivered n calls).getLast?.map ShaderParam.texture).or (r.bound n slot.param) := by
  have both : (r.run calls).Owns f n ∧ (r.run calls).bound n slot.param =
      ((r.delivered n calls).getLast?.map ShaderParam.texture).or (r.bound n slot.param) := by
    induction calls using List.reverseRecOn with
    | nil => exact ⟨h, rfl⟩
    | append_singleton calls c ih =>
        obtain ⟨howns, hbound⟩ := ih fun c hc => hcalls c (List.mem_append_left _ hc)
        have hlast := hcalls c (List.mem_append_right _ (List.mem_singleton.mpr rfl))
        rw [run_concat, delivered_concat]
        refine ⟨(hr.run calls).owns_call howns c, ?_⟩
        rw [(hr.run calls).bound_call howns hslot hlast, hbound]
        cases (r.run calls).delivers? n c with
        | none => simp
        | some texture => simp
  exact both.2

/-- Nothing is delivered to a shader for which no loader is asked. -/
theorem Sound.delivered_eq_nil (hr : r.Sound) (h : r.Owns f n)
    (hcalls : ∀ c ∈ calls, c.filter? ≠ some f) (hasked : ∀ q ∈ r.asked, q.shader ≠ n) :
    r.delivered n calls = [] := by
  induction calls generalizing r with
  | nil => rfl
  | cons c calls ih =>
      have hnothing : r.delivers? n c = none := by
        cases c with
        | deliver place texture =>
            rw [delivers?]
            split
            · next q hq => exact if_neg (hasked q (List.mem_of_getElem? hq))
            · rfl
        | _ => rfl
      rw [delivered, hnothing]
      refine ih (hr.call c) (hr.owns_call h c) (fun d hd => hcalls d (List.mem_cons_of_mem _ hd)) ?_
      intro q hq
      obtain hold | ⟨g, sources, rfl, hasks⟩ := mem_asked_call hq
      · exact hasked q hold
      · have hne : g ≠ f := fun heq => hcalls _ List.mem_cons_self (congrArg some heq)
        rw [(ShaderCache.lookup_request hasks).1]
        exact h.given_ne hne sources

/-- After the latest lookup of a filter that needs a texture, its shader has the texture that was
delivered last since then, or else what the lookup bound by itself, or else what it had before.
So a render target that was found stays bound as long as nothing else is delivered, in particular
if no loader is still asked for that shader.  A render target that was not found is bound no more
once a loader has delivered, and at once if there is no icon to be loaded. -/
theorem texture_of_latest_lookup (before later : List Call) (f : Filter) (slot : TextureSlot)
    (sources : String → Option Texture) (hslot : TextureSlot.ofFilter? f = some slot)
    (hlatest : ∀ c ∈ later, c.filter? ≠ some f) :
    let r := start.run before
    let n := r.given f sources
    let drawn := r.call (.lookup f sources)
    let late := drawn.delivered n later
    let texture := (drawn.run later).bound n slot.param
    (∀ m, (drawn.run later).cache.number? f = some m → m = n) ∧
    texture = ((late.getLast?.or (slot.binds? sources)).map ShaderParam.texture).or
      (r.bound n slot.param) ∧
    (∀ target, slot.source? sources = some target →
      (texture = some (.texture target) ↔ ∀ last, late.getLast? = some last → last = target) ∧
      ((∀ q ∈ r.asked, q.shader ≠ n) → texture = some (.texture target))) ∧
    (slot.source? sources = none → slot.icon = none ∨ late ≠ [] →
      ∃ shown, texture = some (.texture shown) ∧ (shown = .transparent ∨ shown ∈ late)) := by
  intro r n drawn late texture
  have hr : r.Sound := sound_start.run before
  have hdrawn : drawn.Sound := hr.call _
  have hnumber : drawn.cache.number? f = some n := number?_call_lookup r f sources
  have howns : drawn.Owns f n := by
    have hrun : drawn = start.run (before ++ [.lookup f sources]) := (run_concat _ _ _).symm
    rw [hrun] at hnumber ⊢
    exact owns_of_number? hnumber
  have htexture : texture = ((late.getLast?.or (slot.binds? sources)).map ShaderParam.texture).or
      (r.bound n slot.param) := by
    have hlookup : drawn.bound n slot.param =
        ((slot.binds? sources).map ShaderParam.texture).or (r.bound n slot.param) :=
      bound_call_lookup hr hslot sources
    have hrun : texture = (late.getLast?.map ShaderParam.texture).or (drawn.bound n slot.param) :=
      hdrawn.bound_run howns hslot hlatest
    rw [hrun, hlookup, Option.map_or, Option.or_assoc]
  refine ⟨fun m hm => ?_, htexture, fun target htarget => ?_, fun hnone hreplaced => ?_⟩
  · exact Option.some.inj ((hdrawn.number?_of_run hlatest hm).symm.trans hnumber)
  · have hbinds : slot.binds? sources = some target := by
      rw [TextureSlot.binds?, htarget, Option.some_or]
    rw [hbinds] at htexture
    constructor
    · rw [htexture]
      cases late.getLast? with
      | none => simp
      | some last => simp
    · intro hasked
      have hquiet : ∀ q ∈ drawn.asked, q.shader ≠ n := by
        intro q hq
        obtain hold | ⟨g, sources', heq, hasks⟩ := mem_asked_call hq
        · exact hasked q hold
        · obtain ⟨rfl, rfl⟩ := Call.lookup.inj heq
          rw [asks_of_source hslot htarget] at hasks
          cases hasks
      have hlate : late = [] := hdrawn.delivered_eq_nil howns hlatest hquiet
      rw [htexture, hlate]
      rfl
  · cases hlast : late.getLast? with
    | some last =>
        rw [hlast, Option.some_or] at htexture
        exact ⟨last, htexture, Or.inr (List.mem_of_getLast? hlast)⟩
    | none =>
        have hicon := hreplaced.resolve_right (not_not_intro (List.getLast?_eq_none_iff.mp hlast))
        have hbinds : slot.binds? sources = some .transparent := by
          rw [TextureSlot.binds?, hnone, hicon]
          rfl
        rw [hlast, hbinds] at htexture
        exact ⟨.transparent, htexture, Or.inl rfl⟩

/-- A mask is looked up without its render target, then with it, and then the loader that was asked
first delivers. -/
theorem texture_of_latest_lookup_late :
    let mask := Filter.alpha ⟨.zero, .zero, some ⟨5⟩, some "lighting", 0⟩
    let lit : String → Option Texture := fun name => if name = "lighting" then some ⟨77⟩ else none
    let before := [Call.lookup mask fun _ => none]
    let later := [Call.deliver 0 ⟨5⟩]
    let drawn := (start.run before).call (.lookup mask lit)
    TextureSlot.ofFilter? mask = some ⟨"mask_texture", some ⟨5⟩, some "lighting"⟩ ∧
      (∀ c ∈ later, c.filter? ≠ some mask) ∧ drawn.delivered 0 later = [⟨5⟩] ∧
      (drawn.run later).bound 0 "mask_texture" = some (.texture ⟨5⟩) := by
  intro mask lit before later drawn
  have hslot : TextureSlot.ofFilter? mask = some ⟨"mask_texture", some ⟨5⟩, some "lighting"⟩ := rfl
  have hlatest : ∀ c ∈ later, c.filter? ≠ some mask := by
    intro c hc
    rw [List.mem_singleton.mp hc]
    exact Option.some_ne_none mask |>.symm
  have hgiven : (start.run before).given mask lit = 0 := by decide +kernel
  have hlate : drawn.delivered 0 later = [⟨5⟩] := by decide +kernel
  obtain ⟨-, htexture, -⟩ := texture_of_latest_lookup before later mask _ lit hslot hlatest
  rw [hgiven] at htexture
  change (drawn.run later).bound 0 "mask_texture" =
    (((drawn.delivered 0 later).getLast?.or _).map ShaderParam.texture).or _ at htexture
  rw [hlate] at htexture
  exact ⟨hslot, hlatest, hlate, htexture⟩

/-- The latest lookup does not decide: it found its render target, and a texture that an earlier
lookup asked for is bound; or it did not find the render target, and the one that an earlier lookup
found is still bound. -/
theorem latest_lookup_overruled :
    let mask := Filter.alpha ⟨.zero, .zero, some ⟨5⟩, some "lighting", 0⟩
    let lit : String → Option Texture := fun name => if name = "lighting" then some ⟨77⟩ else none
    let dark : String → Option Texture := fun _ => none
    let late := start.run [.lookup mask dark, .lookup mask lit, .deliver 0 ⟨5⟩]
    let stale := start.run [.lookup mask lit, .lookup mask dark]
    (TextureSlot.ofFilter? mask).map (fun slot => (slot.source? lit, slot.source? dark)) =
        some (some ⟨77⟩, none) ∧
      (late.cache.number? mask = some 0 ∧ late.bound 0 "mask_texture" = some (.texture ⟨5⟩)) ∧
      stale.cache.number? mask = some 0 ∧ stale.bound 0 "mask_texture" = some (.texture ⟨77⟩) := by
  decide +kernel

end Renderer
end AppearanceSync
