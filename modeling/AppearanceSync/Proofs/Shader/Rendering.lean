import AppearanceSync.Proofs.Shader.Cache
import Mathlib.Data.List.Induction

/-!
# Runs of a shader cache

A renderer looks shaders up, resets and sweeps the cache, and its loaders deliver textures at any
later time and in any order.  Every shader that is handed out stays the one that its filter
determines, whatever is swept and whatever is delivered late.  A texture goes to the very shader
for which it was asked.
-/

namespace AppearanceSync

/-- A cache in use, and what loaders were asked for and have not delivered. -/
structure Renderer where
  cache : ShaderCache
  asked : List TextureRequest

namespace Renderer

/-- What is done with a cache. -/
inductive Call
  | lookup (f : Filter) (sources : String → Option Texture)
  | reset
  | sweep
  /-- The loader at this place among those that have not delivered delivers. -/
  | deliver (place : ℕ) (texture : Texture)

/-- A renderer that has not drawn anything. -/
def start : Renderer := ⟨.empty, []⟩

/-- The number of the shader that a lookup hands out. -/
def given (r : Renderer) (f : Filter) (sources : String → Option Texture) : ℕ :=
  (r.cache.lookup f sources).2.1

/-- What a lookup asks a loader for. -/
def asks (r : Renderer) (f : Filter) (sources : String → Option Texture) :
    Option TextureRequest :=
  (r.cache.lookup f sources).2.2

/-- The renderer after a call. -/
def call (r : Renderer) : Call → Renderer
  | .lookup f sources => ⟨(r.cache.lookup f sources).1, r.asked ++ (r.asks f sources).toList⟩
  | .reset => { r with cache := r.cache.resetUsage }
  | .sweep => { r with cache := r.cache.sweep.1 }
  | .deliver place texture =>
    match r.asked[place]? with
    | none => r
    | some q => ⟨r.cache.complete q texture, r.asked.eraseIdx place⟩

/-- The renderer after calls. -/
def run (r : Renderer) (calls : List Call) : Renderer := calls.foldl call r

variable {r : Renderer} {calls : List Call} {c : Call} {f g : Filter} {m n : ℕ}
  {sources : String → Option Texture} {q : TextureRequest} {place : ℕ} {texture : Texture}

theorem run_append (r : Renderer) (before after : List Call) :
    r.run (before ++ after) = (r.run before).run after := List.foldl_append

theorem run_concat (r : Renderer) (calls : List Call) (c : Call) :
    r.run (calls ++ [c]) = (r.run calls).call c := run_append r calls [c]

/-- What holds at the start and is kept by every call holds after every run. -/
theorem run_induction {P : Renderer → Prop} (hr : P r) (hcall : ∀ r c, P r → P (r.call c))
    (calls : List Call) : P (r.run calls) := by
  induction calls using List.reverseRecOn with
  | nil => exact hr
  | append_singleton calls c ih =>
      rw [run_concat]
      exact hcall _ c ih

theorem call_deliver (hq : r.asked[place]? = some q) (texture : Texture) :
    r.call (.deliver place texture) = ⟨r.cache.complete q texture, r.asked.eraseIdx place⟩ := by
  rw [call, hq]

/-- A delivery sets a parameter that was asked for, or there is none to deliver. -/
theorem deliver_cases (r : Renderer) (place : ℕ) (texture : Texture) :
    r.call (.deliver place texture) = r ∨
      ∃ q ∈ r.asked, r.call (.deliver place texture) =
        ⟨r.cache.setParam q.shader q.param (.texture texture), r.asked.eraseIdx place⟩ := by
  cases hq : r.asked[place]? with
  | none =>
      left
      rw [call, hq]
  | some q => exact Or.inr ⟨q, List.mem_of_getElem? hq, call_deliver hq texture⟩

theorem entries_deliver (r : Renderer) (place : ℕ) (texture : Texture) :
    (r.call (.deliver place texture)).cache.entries = r.cache.entries := by
  obtain heq | ⟨q, -, heq⟩ := r.deliver_cases place texture
  · rw [heq]
  · rw [heq, ShaderCache.setParam]

theorem size_deliver (r : Renderer) (place : ℕ) (texture : Texture) :
    (r.call (.deliver place texture)).cache.shaders.size = r.cache.shaders.size := by
  obtain heq | ⟨q, -, heq⟩ := r.deliver_cases place texture
  · rw [heq]
  · rw [heq, ShaderCache.size_setParam]

/-! ## Soundness -/

/-- Every filter's shader was made for it, and every loader will deliver the texture that the
filter of its shader needs. -/
structure Sound (r : Renderer) : Prop where
  wellFormed : r.cache.WellFormed
  kept : ∀ f n, r.cache.number? f = some n → r.cache.Made n f
  aimed : ∀ q ∈ r.asked, ∃ f slot, r.cache.Made q.shader f ∧
    TextureSlot.ofFilter? f = some slot ∧ q.param = slot.param

theorem sound_start : start.Sound := by
  refine ⟨⟨List.nodup_nil, fun e he => ?_⟩, fun f n hn => ?_, fun q hq => ?_⟩
  · cases he
  · cases hn
  · cases hq

theorem mem_asked_call (hq : q ∈ (r.call c).asked) :
    q ∈ r.asked ∨ ∃ f sources, c = .lookup f sources ∧ r.asks f sources = some q := by
  cases c with
  | lookup f sources =>
      obtain hq | hq := List.mem_append.mp hq
      · exact Or.inl hq
      · exact Or.inr ⟨f, sources, rfl, Option.mem_toList.mp hq⟩
  | reset => exact Or.inl hq
  | sweep => exact Or.inl hq
  | deliver place texture =>
      left
      obtain heq | ⟨own, -, heq⟩ := r.deliver_cases place texture
      · rwa [heq] at hq
      · rw [heq] at hq
        exact List.mem_of_mem_eraseIdx hq

/-- What has been made for a filter stays made for it. -/
theorem Sound.made_call (hr : r.Sound) (h : r.cache.Made n f) (c : Call) :
    (r.call c).cache.Made n f := by
  cases c with
  | lookup g sources => exact h.lookup (hr.kept g) sources
  | reset => exact h
  | sweep => exact h
  | deliver place texture =>
      obtain heq | ⟨q, hq, heq⟩ := r.deliver_cases place texture
      · rwa [heq]
      · obtain ⟨g, slot, hmade, hslot, hparam⟩ := hr.aimed q hq
        rw [heq, hparam]
        exact h.setParam hmade hslot _

/-- A filter has the shader that it had before, or one that was made for it just now. -/
theorem number?_call (hr : r.Sound) (hn : (r.call c).cache.number? f = some n) :
    r.cache.number? f = some n ∨
      (r.cache.number? f = none ∧ n = r.cache.shaders.size ∧ (r.call c).cache.Made n f) := by
  cases c with
  | lookup g sources =>
      rw [call, ShaderCache.number?_lookup] at hn
      split at hn
      · next heq =>
        subst heq
        obtain rfl := Option.some.inj hn
        cases hold : r.cache.number? f with
        | none =>
            refine Or.inr ⟨rfl, ?_, ShaderCache.made_lookup (hr.kept f) sources⟩
            rw [ShaderCache.lookup_number, ShaderCache.acquire_of_absent hold]
        | some old =>
            rw [ShaderCache.lookup_number, ShaderCache.acquire_of_number? hold]
            exact Or.inl rfl
      · exact Or.inl hn
  | reset => exact Or.inl ((ShaderCache.number?_resetUsage _ f).symm.trans hn)
  | sweep => exact Or.inl (hr.wellFormed.number?_of_sweep hn)
  | deliver place texture =>
      rw [ShaderCache.number?_eq_of_entries_eq (r.entries_deliver place texture)] at hn
      exact Or.inl hn

theorem Sound.wellFormed_call (hr : r.Sound) (c : Call) : (r.call c).cache.WellFormed := by
  cases c with
  | lookup f sources => exact hr.wellFormed.lookup f sources
  | reset => exact hr.wellFormed.resetUsage
  | sweep => exact hr.wellFormed.sweep
  | deliver place texture =>
      exact hr.wellFormed.of_entries_eq (r.entries_deliver place texture)
        (r.size_deliver place texture)

theorem Sound.call (hr : r.Sound) (c : Call) : (r.call c).Sound := by
  refine ⟨hr.wellFormed_call c, fun f n hn => ?_, fun q hq => ?_⟩
  · obtain hold | ⟨-, -, hmade⟩ := number?_call hr hn
    · exact hr.made_call (hr.kept f n hold) c
    · exact hmade
  · obtain hq | ⟨f, sources, rfl, hasks⟩ := mem_asked_call hq
    · obtain ⟨f, slot, hmade, hslot⟩ := hr.aimed q hq
      exact ⟨f, slot, hr.made_call hmade c, hslot⟩
    · obtain ⟨hshader, slot, hslot⟩ := ShaderCache.lookup_request hasks
      rw [hshader]
      exact ⟨f, slot, ShaderCache.made_lookup (hr.kept f) sources, hslot⟩

theorem Sound.run (hr : r.Sound) (calls : List Call) : (r.run calls).Sound :=
  run_induction hr (fun _ c h => h.call c) calls

theorem Sound.made_run (hr : r.Sound) (h : r.cache.Made n f) (calls : List Call) :
    (r.run calls).cache.Made n f := by
  have both : (r.run calls).Sound ∧ (r.run calls).cache.Made n f :=
    run_induction (P := fun r' => r'.Sound ∧ r'.cache.Made n f) ⟨hr, h⟩
      (fun _ c h => ⟨h.1.call c, h.1.made_call h.2 c⟩) calls
  exact both.2

/-! ## Numbers -/

theorem size_le_call (r : Renderer) (c : Call) :
    r.cache.shaders.size ≤ (r.call c).cache.shaders.size := by
  cases c with
  | lookup f sources =>
      rw [call, ShaderCache.size_lookup]
      exact r.cache.size_le_acquire f
  | reset => exact Nat.le_refl _
  | sweep => exact Nat.le_refl _
  | deliver place texture => exact Nat.le_of_eq (r.size_deliver place texture).symm

theorem size_le_run (r : Renderer) (calls : List Call) :
    r.cache.shaders.size ≤ (r.run calls).cache.shaders.size :=
  run_induction (P := fun r' => r.cache.shaders.size ≤ r'.cache.shaders.size) (Nat.le_refl _)
    (fun r' c h => Nat.le_trans h (size_le_call r' c)) calls

theorem given_of_number? (hn : r.cache.number? f = some n) (sources : String → Option Texture) :
    r.given f sources = n := by
  rw [given, ShaderCache.lookup_number, ShaderCache.acquire_of_number? hn]

theorem given_of_absent (hn : r.cache.number? f = none) (sources : String → Option Texture) :
    r.given f sources = r.cache.shaders.size := by
  rw [given, ShaderCache.lookup_number, ShaderCache.acquire_of_absent hn]

theorem number?_call_lookup (r : Renderer) (f : Filter) (sources : String → Option Texture) :
    (r.call (.lookup f sources)).cache.number? f = some (r.given f sources) := by
  rw [call, ShaderCache.number?_lookup, if_pos rfl, given]

theorem Sound.given_lt (hr : r.Sound) (f : Filter) (sources : String → Option Texture) :
    r.given f sources < (r.call (.lookup f sources)).cache.shaders.size :=
  (hr.call _).wellFormed.number?_lt (number?_call_lookup r f sources)

/-- A shader that is made later has another number. -/
theorem Sound.given_ne_of_absent (hr : r.Sound) (f g : Filter)
    (sources sources' : String → Option Texture) (calls : List Call)
    (hn : ((r.call (.lookup f sources)).run calls).cache.number? g = none) :
    ((r.call (.lookup f sources)).run calls).given g sources' ≠ r.given f sources := by
  rw [given_of_absent hn]
  exact Nat.ne_of_gt (Nat.lt_of_lt_of_le (hr.given_lt f sources) (size_le_run _ calls))

/-! ## Eviction -/

/-- A filter's shader is dropped by one of the calls. -/
def Evicts (r : Renderer) (calls : List Call) (f : Filter) : Prop :=
  ∃ before c after, calls = before ++ c :: after ∧ (r.run before).cache.contains f = true ∧
    ((r.run before).call c).cache.contains f = false

theorem not_evicts_nil (r : Renderer) (f : Filter) : ¬r.Evicts [] f := by
  rintro ⟨before, c, after, h, -⟩
  exact List.append_ne_nil_of_right_ne_nil before (List.cons_ne_nil c after) h.symm

theorem evicts_concat_iff (r : Renderer) (calls : List Call) (c : Call) (f : Filter) :
    r.Evicts (calls ++ [c]) f ↔ r.Evicts calls f ∨
      ((r.run calls).cache.contains f = true ∧
        ((r.run calls).call c).cache.contains f = false) := by
  constructor
  · rintro ⟨before, d, after, h, hbefore, hafter⟩
    obtain rfl | ⟨after, e, rfl⟩ := List.eq_nil_or_concat' after
    · obtain ⟨rfl, hd⟩ := List.append_inj' h rfl
      obtain rfl := (List.cons.inj hd).1
      exact Or.inr ⟨hbefore, hafter⟩
    · rw [← List.cons_append, ← List.append_assoc] at h
      obtain ⟨rfl, -⟩ := List.append_inj' h rfl
      exact Or.inl ⟨before, d, after, rfl, hbefore, hafter⟩
  · rintro (⟨before, d, after, rfl, h⟩ | h)
    · exact ⟨before, d, after ++ [c], by rw [List.append_assoc, List.cons_append], h⟩
    · exact ⟨calls, c, [], rfl, h⟩

/-- A filter that is not evicted keeps its shader. -/
theorem Sound.number?_run (hr : r.Sound) (hn : r.cache.number? f = some n)
    (hkept : ¬r.Evicts calls f) : (r.run calls).cache.number? f = some n := by
  induction calls using List.reverseRecOn with
  | nil => exact hn
  | append_singleton calls c ih =>
      rw [evicts_concat_iff, not_or] at hkept
      obtain ⟨hbefore, hlast⟩ := hkept
      have hold := ih hbefore
      have hpresent : ((r.run calls).call c).cache.contains f = true := by
        rw [← Bool.not_eq_false]
        refine fun hgone => hlast ⟨?_, hgone⟩
        rw [ShaderCache.contains_eq, hold]
        rfl
      rw [ShaderCache.contains_eq, Option.isSome_iff_exists] at hpresent
      obtain ⟨m, hm⟩ := hpresent
      obtain hsame | ⟨hnone, -⟩ := number?_call (hr.run calls) hm
      · rw [run_concat, hm, ← hsame, hold]
      · rw [hold] at hnone
        cases hnone

/-- Once a filter was evicted, its shader is a new one. -/
theorem Sound.le_number?_of_evicts (hr : r.Sound) (hgone : r.Evicts calls f)
    (hn : (r.run calls).cache.number? f = some n) : r.cache.shaders.size ≤ n := by
  induction calls using List.reverseRecOn generalizing n with
  | nil => exact absurd hgone (not_evicts_nil r f)
  | append_singleton calls c ih =>
      rw [run_concat] at hn
      obtain hsame | ⟨-, rfl, -⟩ := number?_call (hr.run calls) hn
      · obtain hearly | ⟨-, hlast⟩ := (evicts_concat_iff r calls c f).mp hgone
        · exact ih hearly hsame
        · rw [ShaderCache.contains_eq, hn] at hlast
          cases hlast
      · exact size_le_run r calls

/-- Two lookups of a filter hand out one shader exactly if it is not evicted between them. -/
theorem Sound.given_eq_given_iff (hr : r.Sound) (f : Filter)
    (sources sources' : String → Option Texture) (calls : List Call) :
    ((r.call (.lookup f sources)).run calls).given f sources' = r.given f sources ↔
      ¬(r.call (.lookup f sources)).Evicts calls f := by
  have hfirst := number?_call_lookup r f sources
  constructor
  · intro heq hgone
    cases hn : ((r.call (.lookup f sources)).run calls).cache.number? f with
    | none => exact hr.given_ne_of_absent f f sources sources' calls hn heq
    | some n =>
        have hnew := (hr.call _).le_number?_of_evicts hgone hn
        rw [given_of_number? hn] at heq
        exact absurd (hr.given_lt f sources) (Nat.not_lt.mpr (heq ▸ hnew))
  · intro hkept
    exact given_of_number? ((hr.call _).number?_run hfirst hkept) sources'

/-! ## Late textures -/

/-- Everything a loader still has to deliver was asked for by a lookup. -/
theorem exists_lookup_of_asked (hq : q ∈ (start.run calls).asked) :
    ∃ before f sources after, calls = before ++ .lookup f sources :: after ∧
      (start.run before).asks f sources = some q := by
  induction calls using List.reverseRecOn with
  | nil => cases hq
  | append_singleton calls c ih =>
      rw [run_concat] at hq
      obtain hold | ⟨f, sources, rfl, hasks⟩ := mem_asked_call hq
      · obtain ⟨before, f, sources, after, rfl, hasks⟩ := ih hold
        exact ⟨before, f, sources, after ++ [c], by rw [List.append_assoc, List.cons_append], hasks⟩
      · exact ⟨calls, f, sources, [], rfl, hasks⟩

/-- A delivery sets one parameter of one shader, and nothing else. -/
theorem param?_call_deliver (hq : r.asked[place]? = some q) (texture : Texture) {s : Shader}
    (hs : r.cache.shader? n = some s) :
    ∃ s', (r.call (.deliver place texture)).cache.shader? n = some s' ∧ s'.program = s.program ∧
      ∀ name, s'.param? name =
        if n = q.shader ∧ name = q.param then some (.texture texture) else s.param? name := by
  rw [call_deliver hq, ShaderCache.complete, ShaderCache.shader?_setParam, hs]
  by_cases heq : n = q.shader
  · refine ⟨s.set q.param (.texture texture), if_pos heq, rfl, fun name => ?_⟩
    rw [Shader.param?_set]
    exact if_congr (and_iff_right heq).symm rfl rfl
  · refine ⟨s, if_neg heq, rfl, fun name => ?_⟩
    rw [if_neg fun h => heq h.1]

end Renderer
end AppearanceSync
