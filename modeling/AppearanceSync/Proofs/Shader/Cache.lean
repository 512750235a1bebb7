import AppearanceSync.Shader.Cache
import Mathlib.Data.List.Nodup

/-!
# What the steps of a shader cache change

A cache is looked at here in three ways: by the filters whose shader it keeps, by those
among them that were used, and by the shader of each number.  Looking a shader up marks its
filter as used, and makes a shader under a new number if none is kept.  Binding a texture
changes one parameter of one shader.
-/

namespace AppearanceSync

namespace Shader

variable {s : Shader} {name other : String} {value : ShaderParam}

theorem param?_set (s : Shader) (name : String) (value : ShaderParam) (other : String) :
    (s.set name value).param? other = if other = name then some value else s.param? other := by
  rw [set, param?, param?]
  induction s.params with
  | nil =>
      rw [setIn, List.lookup_cons, List.lookup_nil]
      by_cases h : other = name
      · rw [if_pos h, beq_iff_eq.mpr h]
      · rw [if_neg h, beq_eq_false_iff_ne.mpr h]
  | cons p params ih =>
      rw [setIn, List.lookup_cons]
      by_cases hp : p.1 = name
      · rw [if_pos hp, List.lookup_cons, hp]
        by_cases h : other = name
        · rw [if_pos h, beq_iff_eq.mpr h]
        · rw [if_neg h, beq_eq_false_iff_ne.mpr h]
      · rw [if_neg hp, List.lookup_cons, ih]
        by_cases h : other = p.1
        · have hne : other ≠ name := fun heq => hp (h.symm.trans heq)
          simp only [beq_iff_eq.mpr h, if_neg hne]
        · simp only [beq_eq_false_iff_ne.mpr h]

/-- The shader has the program of a filter, and all parameters but the texture that the filter
needs are as the filter determines them. -/
structure MadeFor (s : Shader) (f : Filter) : Prop where
  program : s.program = (ofFilter f).program
  param : ∀ name, (∀ slot, TextureSlot.ofFilter? f = some slot → slot.param ≠ name) →
    s.param? name = (ofFilter f).param? name

theorem madeFor_ofFilter (f : Filter) : (ofFilter f).MadeFor f := ⟨rfl, fun _ _ => rfl⟩

/-- The program of a filter decides which texture it needs. -/
theorem exists_slot_of_program {f g : Filter} {slot : TextureSlot}
    (h : (ofFilter f).program = (ofFilter g).program) (hg : TextureSlot.ofFilter? g = some slot) :
    ∃ own, TextureSlot.ofFilter? f = some own ∧ own.param = slot.param := by
  cases g with
  | alpha mask =>
      obtain rfl := Option.some.inj hg
      cases f with
      | alpha own => exact ⟨_, rfl, rfl⟩
      | _ => exact absurd h (by simp [ofFilter, Filter.kind])
  | displace map =>
      obtain rfl := Option.some.inj hg
      cases f with
      | displace own => exact ⟨_, rfl, rfl⟩
      | _ => exact absurd h (by simp [ofFilter, Filter.kind])
  | _ => exact absurd hg (by simp [TextureSlot.ofFilter?])

/-- A texture that a filter of the same program needs may be set. -/
theorem MadeFor.set {f g : Filter} {slot : TextureSlot} (h : s.MadeFor f) (hg : s.MadeFor g)
    (hslot : TextureSlot.ofFilter? g = some slot) (value : ShaderParam) :
    (s.set slot.param value).MadeFor f := by
  obtain ⟨own, hown, hparam⟩ := exists_slot_of_program (h.program.symm.trans hg.program) hslot
  refine ⟨h.program, fun name hname => ?_⟩
  rw [param?_set, if_neg, h.param name hname]
  rintro rfl
  exact hname own hown hparam

end Shader

namespace ShaderCache

variable {c : ShaderCache} {f g : Filter} {n m : ℕ} {sources : String → Option Texture}

/-- The filters whose shader is kept. -/
def keys (c : ShaderCache) : List Filter := c.entries.map (·.filter)

/-- The filters whose shader is kept and was used. -/
def usedKeys (c : ShaderCache) : List Filter := (c.entries.filter (·.used)).map (·.filter)

/-- The number of the shader that is kept for a filter. -/
def number? (c : ShaderCache) (f : Filter) : Option ℕ := (c.find? f).map (·.shader)

theorem contains_eq (c : ShaderCache) (f : Filter) : c.contains f = (c.number? f).isSome := by
  rw [contains, number?, Option.isSome_map]

theorem find?_eq_none_iff : c.find? f = none ↔ f ∉ c.keys := by
  rw [find?, List.find?_eq_none, keys, List.mem_map]
  simp only [decide_eq_true_eq, not_exists, not_and]

theorem mem_of_find? {e : CachedShader} (h : c.find? f = some e) :
    e ∈ c.entries ∧ e.filter = f := by
  rw [find?] at h
  have hfilter := List.find?_some h
  exact ⟨List.mem_of_find?_eq_some h, of_decide_eq_true hfilter⟩

theorem contains_iff_mem_keys : c.contains f = true ↔ f ∈ c.keys := by
  rw [contains, ← Option.ne_none_iff_isSome, Ne, find?_eq_none_iff, not_not]

theorem number?_eq_of_entries_eq {d : ShaderCache} (h : d.entries = c.entries) (f : Filter) :
    d.number? f = c.number? f := by
  rw [number?, find?, h, number?, find?]

/-- What is done to all entries, but not to their filters, does not change which is found. -/
theorem find?_map (change : CachedShader → CachedShader)
    (hfilter : ∀ e, (change e).filter = e.filter) (f : Filter) :
    ({ c with entries := c.entries.map change } : ShaderCache).find? f =
      (c.find? f).map change := by
  rw [find?, List.find?_map, find?]
  congr 1
  refine congrArg (List.find? · c.entries) (funext fun e => ?_)
  rw [Function.comp, hfilter]

/-! ## Usage -/

theorem keys_map (change : CachedShader → CachedShader)
    (hfilter : ∀ e, (change e).filter = e.filter) :
    ({ c with entries := c.entries.map change } : ShaderCache).keys = c.keys := by
  rw [keys, keys, List.map_map]
  exact List.map_congr_left fun e _ => hfilter e

theorem number?_map (change : CachedShader → CachedShader)
    (hfilter : ∀ e, (change e).filter = e.filter) (hshader : ∀ e, (change e).shader = e.shader)
    (f : Filter) :
    ({ c with entries := c.entries.map change } : ShaderCache).number? f = c.number? f := by
  rw [number?, find?_map change hfilter, Option.map_map, number?]
  exact congrArg (Option.map · (c.find? f)) (funext hshader)

theorem keys_resetUsage (c : ShaderCache) : c.resetUsage.keys = c.keys :=
  keys_map _ fun _ => rfl

theorem number?_resetUsage (c : ShaderCache) (f : Filter) :
    c.resetUsage.number? f = c.number? f :=
  number?_map (fun e => { e with used := false }) (fun _ => rfl) (fun _ => rfl) f

theorem usedKeys_resetUsage (c : ShaderCache) : c.resetUsage.usedKeys = [] := by
  rw [usedKeys, List.map_eq_nil_iff, List.filter_eq_nil_iff]
  intro e he
  obtain ⟨old, -, rfl⟩ := List.mem_map.mp he
  exact Bool.false_ne_true

theorem keys_sweep (c : ShaderCache) : c.sweep.1.keys = c.usedKeys := keys_resetUsage _

theorem usedKeys_sweep (c : ShaderCache) : c.sweep.1.usedKeys = [] := usedKeys_resetUsage _

/-! ## Entries -/

/-- No filter is kept twice, and every entry has the number of a shader. -/
structure WellFormed (c : ShaderCache) : Prop where
  nodup : c.keys.Nodup
  bounded : ∀ e ∈ c.entries, e.shader < c.shaders.size

theorem WellFormed.of_entries_eq {d : ShaderCache} (h : c.WellFormed)
    (hentries : d.entries = c.entries) (hsize : d.shaders.size = c.shaders.size) :
    d.WellFormed := by
  refine ⟨?_, fun e he => ?_⟩
  · rw [keys, hentries]
    exact h.nodup
  · rw [hsize]
    exact h.bounded e (hentries ▸ he)

theorem WellFormed.find?_eq_some (h : c.WellFormed) {e : CachedShader} (he : e ∈ c.entries) :
    c.find? e.filter = some e := by
  obtain ⟨found, hfound⟩ : ∃ found, c.find? e.filter = some found := by
    rw [← Option.ne_none_iff_exists', Ne, find?_eq_none_iff, not_not]
    exact List.mem_map_of_mem he
  obtain ⟨hmem, hsame⟩ := mem_of_find? hfound
  rw [hfound, List.inj_on_of_nodup_map h.nodup hmem he hsame]

theorem WellFormed.number?_eq_some_iff (h : c.WellFormed) :
    c.number? f = some n ↔ ∃ e ∈ c.entries, e.filter = f ∧ e.shader = n := by
  rw [number?, Option.map_eq_some_iff]
  constructor
  · rintro ⟨e, hfound, hn⟩
    exact ⟨e, (mem_of_find? hfound).1, (mem_of_find? hfound).2, hn⟩
  · rintro ⟨e, he, rfl, hn⟩
    exact ⟨e, h.find?_eq_some he, hn⟩

theorem WellFormed.number?_lt (h : c.WellFormed) (hn : c.number? f = some n) :
    n < c.shaders.size := by
  obtain ⟨e, he, -, rfl⟩ := h.number?_eq_some_iff.mp hn
  exact h.bounded e he

theorem WellFormed.resetUsage (h : c.WellFormed) : c.resetUsage.WellFormed := by
  refine ⟨by rw [keys_resetUsage]; exact h.nodup, fun e he => ?_⟩
  obtain ⟨old, hold, rfl⟩ := List.mem_map.mp he
  exact h.bounded old hold

theorem WellFormed.sweep (h : c.WellFormed) : c.sweep.1.WellFormed := by
  have hkept : ({ c with entries := c.entries.filter (·.used) } : ShaderCache).WellFormed :=
    ⟨h.nodup.sublist (List.filter_sublist.map _),
      fun e he => h.bounded e (List.mem_of_mem_filter he)⟩
  exact hkept.resetUsage

/-- What is kept after a sweep was kept before it. -/
theorem WellFormed.number?_of_sweep (h : c.WellFormed) (hn : c.sweep.1.number? f = some n) :
    c.number? f = some n := by
  obtain ⟨e, he, hfilter, hshader⟩ := h.sweep.number?_eq_some_iff.mp hn
  obtain ⟨old, hold, rfl⟩ := List.mem_map.mp he
  exact h.number?_eq_some_iff.mpr ⟨old, List.mem_of_mem_filter hold, hfilter, hshader⟩

/-! ## Acquiring a shader -/

/-- A shader that is kept is handed out, and marked as used. -/
theorem acquire_of_number? (hn : c.number? f = some n) : c.acquire f = (c.markUsed f, n) := by
  obtain ⟨e, hfound, rfl⟩ := Option.map_eq_some_iff.mp hn
  rw [acquire, hfound]

/-- If none is kept, one is made under a new number. -/
theorem acquire_of_absent (hn : c.number? f = none) :
    c.acquire f = (⟨c.entries ++ [⟨f, c.shaders.size, true⟩], c.shaders.push (.ofFilter f)⟩,
      c.shaders.size) := by
  rw [acquire, Option.map_eq_none_iff.mp hn]

theorem keys_markUsed (c : ShaderCache) (f : Filter) : (c.markUsed f).keys = c.keys :=
  keys_map _ fun e => by split <;> rfl

theorem number?_markUsed (c : ShaderCache) (f g : Filter) :
    (c.markUsed f).number? g = c.number? g :=
  number?_map (fun e => if e.filter = f then { e with used := true } else e)
    (fun e => by split <;> rfl) (fun e => by split <;> rfl) g

theorem mem_usedKeys_iff : f ∈ c.usedKeys ↔ ∃ e ∈ c.entries, e.filter = f ∧ e.used = true := by
  rw [usedKeys, List.mem_map]
  constructor
  · rintro ⟨e, he, rfl⟩
    exact ⟨e, List.mem_of_mem_filter he, rfl, List.of_mem_filter he⟩
  · rintro ⟨e, he, rfl, hused⟩
    exact ⟨e, List.mem_filter.mpr ⟨he, hused⟩, rfl⟩

theorem mem_usedKeys_acquire (c : ShaderCache) (f g : Filter) :
    g ∈ (c.acquire f).1.usedKeys ↔ g = f ∨ g ∈ c.usedKeys := by
  cases hn : c.number? f with
  | none =>
      rw [acquire_of_absent hn, usedKeys, List.filter_append, List.map_append, List.mem_append,
        or_comm]
      exact or_congr_left List.mem_singleton
  | some n =>
      obtain ⟨found, hfound, -⟩ := Option.map_eq_some_iff.mp hn
      obtain ⟨hmem, hfilter⟩ := mem_of_find? hfound
      rw [acquire_of_number? hn, mem_usedKeys_iff, mem_usedKeys_iff]
      constructor
      · rintro ⟨e, he, rfl, hused⟩
        obtain ⟨old, hold, rfl⟩ := List.mem_map.mp he
        by_cases hsame : old.filter = f
        · rw [if_pos hsame]
          exact Or.inl hsame
        · rw [if_neg hsame] at hused ⊢
          exact Or.inr ⟨old, hold, rfl, hused⟩
      · rintro (rfl | ⟨e, he, rfl, hused⟩)
        · exact ⟨{ found with used := true }, List.mem_map.mpr ⟨found, hmem, if_pos hfilter⟩,
            hfilter, rfl⟩
        · refine ⟨_, List.mem_map_of_mem he, ?_⟩
          split
          · exact ⟨rfl, rfl⟩
          · exact ⟨rfl, hused⟩

theorem number?_acquire (c : ShaderCache) (f g : Filter) :
    (c.acquire f).1.number? g = if g = f then some (c.acquire f).2 else c.number? g := by
  cases hn : c.number? f with
  | none =>
      have hfind : (c.acquire f).1.find? g =
          (c.find? g).or ([⟨f, c.shaders.size, true⟩].find? fun e => e.filter = g) := by
        rw [acquire_of_absent hn, find?, List.find?_append, find?]
      rw [number?, hfind, acquire_of_absent hn]
      split
      · next heq => simp [heq, Option.map_eq_none_iff.mp hn]
      · next hne => simp [Ne.symm hne, number?]
  | some n =>
      rw [acquire_of_number? hn, number?_markUsed]
      split
      · next heq => rw [heq, hn]
      · rfl

theorem WellFormed.markUsed (h : c.WellFormed) (f : Filter) : (c.markUsed f).WellFormed := by
  refine ⟨by rw [keys_markUsed]; exact h.nodup, fun e he => ?_⟩
  obtain ⟨old, hold, rfl⟩ := List.mem_map.mp he
  have hbound := h.bounded old hold
  split <;> exact hbound

theorem WellFormed.acquire (h : c.WellFormed) (f : Filter) : (c.acquire f).1.WellFormed := by
  cases hn : c.number? f with
  | none =>
      have habsent : f ∉ c.keys := find?_eq_none_iff.mp (Option.map_eq_none_iff.mp hn)
      rw [acquire_of_absent hn]
      constructor
      · rw [keys, List.map_append]
        exact h.nodup.append (List.nodup_singleton f) (List.disjoint_singleton.mpr habsent)
      · intro e he
        rw [Array.size_push]
        rcases List.mem_append.mp he with he | he
        · exact Nat.lt_succ_of_lt (h.bounded e he)
        · rw [List.mem_singleton.mp he]
          exact Nat.lt_succ_self _
  | some n =>
      rw [acquire_of_number? hn]
      exact h.markUsed f

/-! ## Shaders by number -/

theorem shader?_setParam (c : ShaderCache) (n : ℕ) (name : String) (value : ShaderParam) (m : ℕ) :
    (c.setParam n name value).shader? m =
      if m = n then (c.shader? m).map (·.set name value) else c.shader? m := by
  rw [shader?, setParam, Array.getElem?_modify, shader?]
  exact if_congr eq_comm rfl rfl

theorem size_setParam (c : ShaderCache) (n : ℕ) (name : String) (value : ShaderParam) :
    (c.setParam n name value).shaders.size = c.shaders.size := Array.size_modify

/-- Acquiring a shader changes none that has been made before. -/
theorem shader?_acquire_of_lt (f : Filter) (h : n < c.shaders.size) :
    (c.acquire f).1.shader? n = c.shader? n := by
  cases hn : c.number? f with
  | none =>
      rw [acquire_of_absent hn, shader?, Array.getElem?_push_lt h, shader?,
        Array.getElem?_eq_getElem h]
  | some m =>
      rw [acquire_of_number? hn]
      rfl

theorem size_le_acquire (c : ShaderCache) (f : Filter) :
    c.shaders.size ≤ (c.acquire f).1.shaders.size := by
  cases hn : c.number? f with
  | none =>
      rw [acquire_of_absent hn, Array.size_push]
      exact Nat.le_succ _
  | some m =>
      rw [acquire_of_number? hn]
      exact Nat.le_refl _

/-- The shader of this number was made for the filter. -/
def Made (c : ShaderCache) (n : ℕ) (f : Filter) : Prop := ∃ s, c.shader? n = some s ∧ s.MadeFor f

theorem Made.lt (h : c.Made n f) : n < c.shaders.size := by
  obtain ⟨s, hs, -⟩ := h
  exact (Array.getElem?_eq_some_iff.mp hs).1

theorem Made.acquire (h : c.Made n f) (g : Filter) : (c.acquire g).1.Made n f := by
  rw [Made, shader?_acquire_of_lt g h.lt]
  exact h

theorem made_acquire (hkept : ∀ n, c.number? f = some n → c.Made n f) :
    (c.acquire f).1.Made (c.acquire f).2 f := by
  cases hn : c.number? f with
  | none =>
      rw [acquire_of_absent hn]
      exact ⟨.ofFilter f, Array.getElem?_push_size, Shader.madeFor_ofFilter f⟩
  | some n =>
      rw [acquire_of_number? hn]
      exact hkept n hn

theorem Made.setParam {slot : TextureSlot} (h : c.Made m f) (hg : c.Made n g)
    (hslot : TextureSlot.ofFilter? g = some slot) (value : ShaderParam) :
    (c.setParam n slot.param value).Made m f := by
  obtain ⟨s, hs, hmade⟩ := h
  rw [Made, shader?_setParam, hs]
  by_cases heq : m = n
  · obtain ⟨s', hs', hmade'⟩ := hg
    obtain rfl : s = s' := Option.some.inj ((heq ▸ hs).symm.trans hs')
    rw [if_pos heq]
    exact ⟨_, rfl, hmade.set hmade' hslot value⟩
  · rw [if_neg heq]
    exact ⟨s, rfl, hmade⟩

/-! ## Looking a shader up -/

/-- A shader is acquired; then a texture is bound to it, or has to be loaded for it, if the filter
needs one. -/
theorem lookup_cases (c : ShaderCache) (f : Filter) (sources : String → Option Texture) :
    c.lookup f sources = ((c.acquire f).1, (c.acquire f).2, none) ∨
      ∃ slot, TextureSlot.ofFilter? f = some slot ∧
        ((∃ texture, c.lookup f sources =
            ((c.acquire f).1.setParam (c.acquire f).2 slot.param (.texture texture),
              (c.acquire f).2, none)) ∨
          ∃ icon, c.lookup f sources =
            ((c.acquire f).1, (c.acquire f).2, some ⟨icon, (c.acquire f).2, slot.param⟩)) := by
  rw [lookup]
  cases hslot : TextureSlot.ofFilter? f with
  | none => exact Or.inl rfl
  | some slot =>
      refine Or.inr ⟨slot, rfl, ?_⟩
      simp only [bindTexture]
      split
      · next texture _ => exact Or.inl ⟨texture, rfl⟩
      · split
        · next icon _ => exact Or.inr ⟨icon, rfl⟩
        · exact Or.inl ⟨.transparent, rfl⟩

theorem entries_lookup (c : ShaderCache) (f : Filter) (sources : String → Option Texture) :
    (c.lookup f sources).1.entries = (c.acquire f).1.entries := by
  obtain h | ⟨slot, -, ⟨texture, h⟩ | ⟨icon, h⟩⟩ := c.lookup_cases f sources
  all_goals rw [h]
  rfl

theorem size_lookup (c : ShaderCache) (f : Filter) (sources : String → Option Texture) :
    (c.lookup f sources).1.shaders.size = (c.acquire f).1.shaders.size := by
  obtain h | ⟨slot, -, ⟨texture, h⟩ | ⟨icon, h⟩⟩ := c.lookup_cases f sources
  all_goals rw [h]
  exact size_setParam _ _ _ _

theorem lookup_number (c : ShaderCache) (f : Filter) (sources : String → Option Texture) :
    (c.lookup f sources).2.1 = (c.acquire f).2 := by
  obtain h | ⟨slot, -, ⟨texture, h⟩ | ⟨icon, h⟩⟩ := c.lookup_cases f sources
  all_goals rw [h]

/-- What a lookup asks for is the texture of the shader that it hands out. -/
theorem lookup_request {q : TextureRequest} (h : (c.lookup f sources).2.2 = some q) :
    q.shader = (c.lookup f sources).2.1 ∧
      ∃ slot, TextureSlot.ofFilter? f = some slot ∧ q.param = slot.param := by
  obtain heq | ⟨slot, hslot, ⟨texture, heq⟩ | ⟨icon, heq⟩⟩ := c.lookup_cases f sources
  all_goals rw [heq] at h ⊢
  · cases h
  · cases h
  · obtain rfl := Option.some.inj h
    exact ⟨rfl, slot, hslot, rfl⟩

theorem number?_lookup (c : ShaderCache) (f g : Filter) (sources : String → Option Texture) :
    (c.lookup f sources).1.number? g =
      if g = f then some (c.lookup f sources).2.1 else c.number? g := by
  rw [number?_eq_of_entries_eq (c.entries_lookup f sources), number?_acquire, lookup_number]

theorem WellFormed.lookup (h : c.WellFormed) (f : Filter) (sources : String → Option Texture) :
    (c.lookup f sources).1.WellFormed :=
  (h.acquire f).of_entries_eq (c.entries_lookup f sources) (c.size_lookup f sources)

theorem mem_usedKeys_lookup (c : ShaderCache) (f g : Filter) (sources : String → Option Texture) :
    g ∈ (c.lookup f sources).1.usedKeys ↔ g = f ∨ g ∈ c.usedKeys := by
  rw [usedKeys, c.entries_lookup f sources]
  exact c.mem_usedKeys_acquire f g

theorem Made.lookup (h : c.Made m g) (hkept : ∀ n, c.number? f = some n → c.Made n f)
    (sources : String → Option Texture) : (c.lookup f sources).1.Made m g := by
  obtain heq | ⟨slot, hslot, ⟨texture, heq⟩ | ⟨icon, heq⟩⟩ := c.lookup_cases f sources
  all_goals rw [heq]
  · exact h.acquire f
  · exact (h.acquire f).setParam (made_acquire hkept) hslot _
  · exact h.acquire f

theorem made_lookup (hkept : ∀ n, c.number? f = some n → c.Made n f)
    (sources : String → Option Texture) :
    (c.lookup f sources).1.Made (c.lookup f sources).2.1 f := by
  have hmade := made_acquire hkept
  obtain heq | ⟨slot, hslot, ⟨texture, heq⟩ | ⟨icon, heq⟩⟩ := c.lookup_cases f sources
  all_goals rw [heq]
  · exact hmade
  · exact hmade.setParam hmade hslot _
  · exact hmade

end ShaderCache
end AppearanceSync
