import AppearanceSync.Proofs.Shader.Rendering

/-!
# What a sweep keeps

The filters that count as used are those that were looked up since usage was last reset, so a
sweep keeps exactly these.  With the soundness of every run this says what becomes of a shader
between two sweeps, and after it was dropped.
-/

namespace AppearanceSync
namespace Renderer

/-- Whether a call forgets what was used. -/
def Call.clears : Call → Bool
  | .reset => true
  | .sweep => true
  | _ => false

/-- The filter that a call looks up. -/
def Call.filter? : Call → Option Filter
  | .lookup f _ => some f
  | _ => none

/-- The filters that were looked up since usage was last reset, the latest first. -/
def drawn (calls : List Call) : List Filter :=
  (calls.reverse.takeWhile fun c => !c.clears).filterMap Call.filter?

variable {r : Renderer} {calls : List Call} {f : Filter}

theorem drawn_concat (calls : List Call) (c : Call) :
    drawn (calls ++ [c]) = if c.clears then [] else c.filter?.toList ++ drawn calls := by
  rw [drawn, List.reverse_concat, List.takeWhile_cons]
  cases c <;> rfl

theorem mem_usedKeys_run (calls : List Call) (f : Filter) :
    f ∈ (start.run calls).cache.usedKeys ↔ f ∈ drawn calls := by
  induction calls using List.reverseRecOn with
  | nil => rfl
  | append_singleton calls c ih =>
      rw [run_concat, drawn_concat]
      cases c with
      | lookup g sources =>
          rw [call, ShaderCache.mem_usedKeys_lookup, ih]
          exact List.mem_cons.symm
      | reset =>
          rw [call, ShaderCache.usedKeys_resetUsage]
          rfl
      | sweep =>
          rw [call, ShaderCache.usedKeys_sweep]
          rfl
      | deliver place texture =>
          rw [ShaderCache.usedKeys, entries_deliver]
          exact ih

/-- A sweep returns the number of filters that it drops. -/
theorem Sound.sweep_count (hr : r.Sound) :
    r.cache.sweep.2 =
      (r.cache.keys.filter fun f => !(r.call .sweep).cache.contains f).length := by
  have hused : ∀ e ∈ r.cache.entries, (r.call .sweep).cache.contains e.filter = e.used := by
    intro e he
    rw [Bool.eq_iff_iff, ShaderCache.contains_iff_mem_keys, Renderer.call, ShaderCache.keys_sweep,
      ShaderCache.mem_usedKeys_iff]
    constructor
    · rintro ⟨own, hown, hfilter, hused⟩
      rw [← List.inj_on_of_nodup_map hr.wellFormed.nodup hown he hfilter]
      exact hused
    · exact fun hused => ⟨e, he, rfl, hused⟩
  rw [ShaderCache.keys, List.filter_map, List.length_map, ShaderCache.sweep,
    List.length_eq_length_filter_add (·.used), Nat.add_sub_cancel_left]
  refine congrArg List.length (List.filter_congr fun e he => ?_)
  rw [Function.comp, hused e he]

/-- In every run, a sweep keeps the filters that were drawn and returns how many it drops; two
lookups hand out one shader exactly if it was not evicted between them; every shader stays as its
filter determines it but for the texture; and a texture is delivered to the shader whose lookup
asked for it. -/
theorem shaders_of_run (calls : List Call) :
    let r := start.run calls
    ((r.call .sweep).cache.keys.Nodup ∧
      (∀ f, f ∈ (r.call .sweep).cache.keys ↔ f ∈ drawn calls) ∧
      r.cache.sweep.2 =
        (r.cache.keys.filter fun f => !(r.call .sweep).cache.contains f).length) ∧
    (∀ f sources between sources',
      ((r.call (.lookup f sources)).run between).given f sources' = r.given f sources ↔
        ¬(r.call (.lookup f sources)).Evicts between f) ∧
    ((∀ f n, r.cache.number? f = some n → r.cache.Made n f) ∧
      ∀ f sources later,
        ((r.call (.lookup f sources)).run later).cache.Made (r.given f sources) f) ∧
    ∀ place q texture, r.asked[place]? = some q →
      (∃ before f sources after, calls = before ++ .lookup f sources :: after ∧
        (start.run before).asks f sources = some q ∧
        q.shader = (start.run before).given f sources ∧
        (∃ slot, TextureSlot.ofFilter? f = some slot ∧ q.param = slot.param) ∧
        ∀ between g sources' rest, after = between ++ .lookup g sources' :: rest →
          let r' := start.run (before ++ .lookup f sources :: between)
          r'.cache.contains g = false → r'.given g sources' ≠ q.shader) ∧
      (r.call (.deliver place texture)).cache.entries = r.cache.entries ∧
      ∀ n s, r.cache.shader? n = some s →
        ∃ s', (r.call (.deliver place texture)).cache.shader? n = some s' ∧
          s'.program = s.program ∧
          ∀ name, s'.param? name =
            if n = q.shader ∧ name = q.param then some (.texture texture) else s.param? name := by
  intro r
  have hr : r.Sound := sound_start.run calls
  refine ⟨⟨(hr.call .sweep).wellFormed.nodup, fun f => ?_, hr.sweep_count⟩,
    fun f sources between sources' => hr.given_eq_given_iff f sources sources' between,
    ⟨hr.kept, fun f sources later => ?_⟩,
    fun place q texture hq => ⟨?_, r.entries_deliver place texture, ?_⟩⟩
  · rw [call, ShaderCache.keys_sweep]
    exact mem_usedKeys_run calls f
  · have hmade := ShaderCache.made_lookup (hr.kept f) sources
    exact (hr.call (.lookup f sources)).made_run hmade later
  · obtain ⟨before, f, sources, after, hcalls, hasks⟩ :=
      exists_lookup_of_asked (List.mem_of_getElem? hq)
    obtain ⟨hshader, hslot⟩ := ShaderCache.lookup_request hasks
    refine ⟨before, f, sources, after, hcalls, hasks, hshader, hslot, ?_⟩
    intro between g sources' rest _ r' habsent
    have hrun : r' = ((start.run before).call (.lookup f sources)).run between :=
      run_append start before (.lookup f sources :: between)
    rw [ShaderCache.contains_eq, Option.isSome_eq_false_iff, Option.isNone_iff_eq_none] at habsent
    rw [hshader]
    rw [hrun] at habsent ⊢
    exact (sound_start.run before).given_ne_of_absent f g sources sources' between habsent
  · exact fun n s hs => param?_call_deliver hq texture hs

/-- A mask is drawn, dropped and drawn again; then the loader that was asked first delivers.  The
first shader gets the texture, and the second shader keeps none. -/
theorem shaders_of_run_remade :
    let mask := Filter.alpha ⟨Real32.zero, Real32.zero, some ⟨7⟩, none, 0⟩
    let first := Call.lookup mask fun _ => none
    let r := start.run [first, .reset, .sweep, first]
    let first := Shader.ofFilter mask
    r.asked[0]? = some ⟨⟨7⟩, 0, "mask_texture"⟩ ∧
      r.cache.shader? 0 = some first ∧ r.cache.shader? 1 = some first ∧
      (∃ s, (r.call (.deliver 0 ⟨9⟩)).cache.shader? 0 = some s ∧
        s.param? "mask_texture" = some (.texture ⟨9⟩)) ∧
      ∃ s, (r.call (.deliver 0 ⟨9⟩)).cache.shader? 1 = some s ∧ s.param? "mask_texture" = none := by
  intro mask lookup r first
  have hasked : r.asked[0]? = some ⟨⟨7⟩, 0, "mask_texture"⟩ := by decide +kernel
  have hone : r.cache.shader? 0 = some first := by decide +kernel
  have htwo : r.cache.shader? 1 = some first := by decide +kernel
  obtain ⟨-, -, -, hlate⟩ := shaders_of_run [lookup, .reset, .sweep, lookup]
  obtain ⟨-, -, hparams⟩ := hlate 0 _ ⟨9⟩ hasked
  obtain ⟨s, hs, -, hset⟩ := hparams 0 first hone
  obtain ⟨s', hs', -, hkept⟩ := hparams 1 first htwo
  refine ⟨hasked, hone, htwo, ⟨s, hs, hset _⟩, s', hs', ?_⟩
  rw [hkept, if_neg (by decide)]
  decide +kernel

end Renderer
end AppearanceSync
