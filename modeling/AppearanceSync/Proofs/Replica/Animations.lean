import AppearanceSync.Proofs.Following

/-!
# Animations of a client

A client carries an animation out as soon as it hears of it if the appearance is
known, and otherwise when the appearance arrives.  The stream of a session announces
animations towards known appearances only.  So a client that follows the stream makes
one change of an icon for each animation, in the order in which it hears of them, and
no animation ever waits.
-/

namespace AppearanceSync

/-- The animation that a message announces, if it does. -/
def Message.animation? : Message → Option Animate
  | .animate e => some e
  | .snapshot _ | .added _ | .removed _ => none

/-- Whether an icon is animated and not only shown. -/
def IconChange.isAnimation : IconChange → Bool
  | .show => false
  | .animate _ => true

/-- Whether an animation waits. -/
def Callback.isAnimation : Callback → Bool
  | .update _ change => change.isAnimation
  | .notify _ | .link _ _ => false

namespace Replica

variable {c c' c'' : Replica} {id : ContentId} {n : Serial} {callback : Callback} {e : Animate}
  {es : List Animate} {entries : List (ContentId × WireState)}
  {stored : List (ContentId × Serial)} {K : Ledger}

/-- The animations among the changes of icons, in the order in which they were made. -/
def animations (c : Replica) : List IconUpdate := c.updates.filter fun u => u.change.isAnimation

/-- The change is the announced animation, towards an instance of the announced name. -/
structure CarriesOut (c : Replica) (u : IconUpdate) (e : Animate) : Prop where
  target : u.target = e.target
  appearance : c.arena.id? u.appearance = some e.appearance
  change : u.change = .animate e.params

/-- The client has carried out exactly these animations, and none waits. -/
structure Animated (c : Replica) (es : List Animate) : Prop where
  carried : List.Forall₂ c.CarriesOut c.animations es
  idle : ∀ id, ∀ callback ∈ c.waitingFor id, callback.isAnimation = false

/-! ## Steps that concern no animation -/

/-- No animation has been made or waits anew, and instances have the names they had. -/
structure Calm (c c' : Replica) : Prop where
  animations : c'.animations = c.animations
  named : ∀ n id, c.arena.id? n = some id → c'.arena.id? n = some id
  idle : ∀ id, ∀ callback ∈ c'.waitingFor id, callback ∈ c.waitingFor id ∨
    callback.isAnimation = false

theorem Calm.refl (c : Replica) : c.Calm c := ⟨rfl, fun _ _ h => h, fun _ _ h => Or.inl h⟩

theorem Calm.trans (h : c.Calm c') (h' : c'.Calm c'') : c.Calm c'' where
  animations := h'.animations.trans h.animations
  named n id hn := h'.named n id (h.named n id hn)
  idle id callback hmem := (h'.idle id callback hmem).elim (h.idle id callback) Or.inr

theorem Animated.of_calm (h : c.Animated es) (hc : c.Calm c') : c'.Animated es where
  carried := by
    rw [hc.animations]
    exact h.carried.imp fun u e hu => ⟨hu.target, hc.named _ _ hu.appearance, hu.change⟩
  idle id callback hmem := (hc.idle id callback hmem).elim (h.idle id callback) fun h => h

theorem calm_of_eq (hupdates : c'.updates = c.updates) (harena : c'.arena = c.arena)
    (hwaiting : c'.waiting = c.waiting) : c.Calm c' where
  animations := by rw [animations, hupdates, animations]
  named n id hn := by rwa [harena]
  idle id callback hmem := by
    rw [waitingFor, hwaiting] at hmem
    exact Or.inl hmem

theorem calm_fill (c : Replica) (p : Serial) (k : ℕ) (m : Serial) :
    c.Calm { c with arena := c.arena.fill p k m } where
  animations := rfl
  named n id hn := by
    rw [Arena.id?, Arena.state?_fill]
    exact hn
  idle _ _ hmem := Or.inl hmem

theorem calm_run (c : Replica) (n : Serial) (hquiet : callback.isAnimation = false) :
    c.Calm (c.run n callback) := by
  cases callback with
  | notify tag =>
      rw [run]
      split <;> exact calm_of_eq rfl rfl rfl
  | link parent slot => exact calm_fill c parent slot n
  | update target change =>
      refine ⟨?_, fun _ _ h => h, fun _ _ h => Or.inl h⟩
      have hchange : change.isAnimation = false := hquiet
      simp [animations, run, List.filter_append, hchange]

theorem calm_wait (c : Replica) (id : ContentId) (hquiet : callback.isAnimation = false) :
    c.Calm (c.wait id callback) where
  animations := rfl
  named _ _ h := h
  idle other callback' hmem := by
    rw [waitingFor_wait, List.mem_append] at hmem
    rcases hmem with hmem | hmem
    · exact Or.inl hmem
    · split at hmem
      · rw [List.mem_singleton.mp hmem]
        exact Or.inr hquiet
      · exact absurd hmem List.not_mem_nil

theorem calm_load (c : Replica) (id : ContentId) (hquiet : callback.isAnimation = false) :
    c.Calm (c.load id callback) := by
  rw [load]
  split
  · exact calm_run c _ hquiet
  · exact calm_wait c id hquiet

theorem calm_link (c : Replica) (n : Serial) : c.Calm (c.link n) := by
  rw [link_eq]
  exact linkAll_induction (motive := fun d => c.Calm d) (.refl c)
    (fun d m slot h => h.trans (calm_fill d n slot m))
    fun d id slot h => h.trans (calm_wait d id rfl)

theorem calm_runAll (c : Replica) (n : Serial) {callbacks : List Callback}
    (hquiet : ∀ callback ∈ callbacks, callback.isAnimation = false) :
    c.Calm (callbacks.foldl (fun c callback => c.run n callback) c) := by
  induction callbacks generalizing c with
  | nil => exact .refl c
  | cons callback callbacks ih =>
      exact (calm_run c n (hquiet callback List.mem_cons_self)).trans
        (ih (c.run n callback) fun other hmem => hquiet other (List.mem_cons_of_mem _ hmem))

theorem calm_keep (c : Replica) (id : ContentId) (state : WireState) :
    c.Calm (c.keep id state) where
  animations := rfl
  named _ _ hn := Arena.id?_push hn state
  idle _ _ hmem := Or.inl hmem

theorem calm_ask (c : Replica) (q : Request) : c.Calm (c.ask q) := by
  cases q with
  | load id tag => exact calm_load c id rfl
  | bind entity id => exact calm_load c id rfl
  | turfIcon turf =>
      rw [ask, turfIcon]
      split
      · exact .refl c
      · rw [makeTurf]
        split
        · exact calm_of_eq rfl rfl rfl
        · exact (calm_wait c turf.content rfl).trans (calm_of_eq rfl rfl rfl)
  | sharedCopy id =>
      rw [ask, sharedCopy]
      split
      · exact .refl c
      · split <;> exact calm_of_eq rfl rfl rfl

/-! ## Calls -/

theorem animated_empty (tileSize : ℕ) : (empty tileSize).Animated [] := by
  refine ⟨.nil, fun id callback hmem => ?_⟩
  simp [waitingFor, empty] at hmem

/-- No animation waits, so running what waits makes none. -/
theorem Animated.drain (h : c.Animated es) (id : ContentId) (n : Serial) :
    (c.drain id n).Animated es := by
  let d : Replica := { c with waiting := c.waiting.erase id }
  have hd : c.Calm d := by
    refine ⟨rfl, fun _ _ h => h, fun other callback hmem => ?_⟩
    -- what is taken out to run is not waiting any more, and nothing else changes
    simp only [d, waitingFor, Std.TreeMap.getD_erase] at hmem
    split at hmem
    · exact absurd hmem List.not_mem_nil
    · exact Or.inl hmem
  exact h.of_calm (hd.trans (calm_runAll d n (h.idle id)))

theorem Animated.insert (h : c.Animated es) (id : ContentId) (state : WireState) :
    (c.insert id state).Animated es := by
  by_cases hname : state.contentId = id
  · rw [insert_of_named hname]
    exact ((h.of_calm (calm_keep c id state)).of_calm (calm_link _ _)).drain _ _
  · rwa [insert_of_misnamed hname]

theorem calm_storeAll (c : Replica) (entries : List (ContentId × WireState)) :
    c.Calm (c.storeAll entries).1 := by
  induction entries generalizing c with
  | nil => exact .refl c
  | cons entry entries ih =>
      obtain ⟨id, state⟩ := entry
      by_cases hname : state.contentId = id
      · rw [storeAll_cons_of_named hname]
        exact (calm_keep c id state).trans (ih (c.keep id state))
      · rw [storeAll_cons_of_misnamed hname]
        exact ih c

theorem calm_linkEach (c : Replica) (stored : List (ContentId × Serial)) :
    c.Calm (c.linkEach stored) := by
  induction stored generalizing c with
  | nil => exact .refl c
  | cons s stored ih => exact (calm_link c s.2).trans (ih (c.link s.2))

theorem Animated.drainEach (h : c.Animated es) (stored : List (ContentId × Serial)) :
    (c.drainEach stored).Animated es := by
  induction stored generalizing c with
  | nil => exact h
  | cons s stored ih => exact ih (h.drain s.1 s.2)

theorem Animated.applyEntries (h : c.Animated es) (entries : List (ContentId × WireState)) :
    (c.applyEntries entries).Animated es := by
  rw [applyEntries_eq]
  have hforget : c.Calm c.forgetAll := calm_of_eq rfl rfl rfl
  have hstored := hforget.trans (calm_storeAll c.forgetAll entries)
  exact (h.of_calm (hstored.trans (calm_linkEach _ _))).drainEach _

theorem Animated.askAll (h : c.Animated es) (qs : List Request) :
    (qs.foldl Replica.ask c).Animated es := by
  induction qs generalizing c with
  | nil => exact h
  | cons q qs ih => exact ih (h.of_calm (calm_ask c q))

/-- An animation towards a known appearance is carried out at once. -/
theorem Animated.animate (h : c.Animated es) (hs : c.Settling [] [])
    (hknown : (c.find? e.appearance).isSome) : (c.apply (.animate e)).Animated (es ++ [e]) := by
  obtain ⟨n, hn⟩ := Option.isSome_iff_exists.mp hknown
  have hmade : c.apply (.animate e) =
      { c with updates := c.updates ++ [⟨e.target, n, .animate e.params⟩] } := by
    rw [apply, load_of_find? hn]
    rfl
  rw [hmade]
  refine ⟨?_, h.idle⟩
  have hanimations : animations
      { c with updates := c.updates ++ [⟨e.target, n, .animate e.params⟩] } =
        c.animations ++ [⟨e.target, n, .animate e.params⟩] := by
    rw [animations, List.filter_append, animations]
    rfl
  rw [hanimations]
  exact List.rel_append (h.carried.imp fun u e hu => ⟨hu.target, hu.appearance, hu.change⟩)
    (.cons ⟨rfl, hs.named e.appearance n hn, rfl⟩ .nil)

theorem Animated.hear {m : Message} (h : c.Animated es) (ht : c.Tracks K) (hm : K.Permits m)
    (rank : ContentId → ℕ) : (c.hear rank m).Animated (es ++ m.animation?.toList) := by
  have hnothing : es ++ [] = es := List.append_nil es
  cases m with
  | snapshot table => exact hm.elim
  | added e => exact hnothing.symm ▸ h.insert e.id e.appearance
  | removed e => exact hnothing.symm ▸ h.of_calm (calm_of_eq rfl rfl rfl)
  | animate e =>
      refine h.animate ht.settling ?_
      rw [← ht.settling.isSome_ledger, ht.ledger]
      exact hm

/-- A client that follows a faithful stream carries out the animations of the stream. -/
theorem Animated.follow {st : List (Message × Registry)} {rank : ContentId → ℕ}
    {asks : ℕ → List Request} {i : ℕ} (h : c.Animated es) (ht : c.Tracks K)
    (hst : Faithful K st) :
    (follow rank asks i c (st.map Prod.fst)).Animated
      (es ++ (st.map Prod.fst).filterMap Message.animation?) := by
  induction st generalizing c K i es with
  | nil =>
      rw [List.map_nil, List.filterMap_nil, List.append_nil]
      exact h.askAll (asks i)
  | cons entry st ih =>
      obtain ⟨m, r⟩ := entry
      obtain ⟨hm, -, -, hrest⟩ := hst
      have htracks := ht.askAll (asks i)
      have hheard := (h.askAll (asks i)).hear htracks hm rank
      have hfirst : (m :: st.map Prod.fst).filterMap Message.animation? =
          m.animation?.toList ++ (st.map Prod.fst).filterMap Message.animation? := by
        rw [List.filterMap_cons]
        cases m.animation? <;> rfl
      rw [List.map_cons, hfirst, ← List.append_assoc]
      exact ih hheard (htracks.hear hm rank) hrest

/-- So does a client of a session, from the table on with which its stream begins. -/
theorem animated_stream {r : Registry} {out : Multiset Handle} {st : List (Message × Registry)}
    (tileSize : ℕ) (rank : ContentId → ℕ) (asks : ℕ → List Request) (hr : r.Balanced out)
    (hst : Faithful r.ledger st) :
    (follow rank asks 0 (empty tileSize) (.snapshot r.snapshot :: st.map Prod.fst)).Animated
      ((st.map Prod.fst).filterMap Message.animation?) := by
  have hs := (settling_empty tileSize).askAll (asks 0)
  have hempty := (animated_empty tileSize).askAll (asks 0)
  exact (hempty.applyEntries _).follow (hs.tracks_hear hr rank) hst

end Replica
end AppearanceSync
