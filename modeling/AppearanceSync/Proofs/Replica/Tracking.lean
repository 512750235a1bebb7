import AppearanceSync.Proofs.Ledger
import AppearanceSync.Proofs.Replica.Consistency
import AppearanceSync.Proofs.Snapshot

/-!
# Replicas that follow a ledger

A replica tracks a ledger when it knows exactly what the ledger has, in the same
states, and when the slots of what it knows are filled with what it knows now.
The latter is more than consistency: an instance that has been forgotten or
replaced must not stand in a slot of one that is known.

A message that the ledger permits, and any request, keeps a replica on the track.
-/

namespace AppearanceSync
namespace Replica

/-- What is known, by id and state. -/
def ledger (c : Replica) : Ledger := fun id => (c.find? id).bind c.arena.state?

/-- What fills a slot of a known instance is what is known under the slot's id. -/
def Current (c : Replica) : Prop :=
  ∀ id n, c.find? id = some n → ∀ k ref m, c.arena.slotAt? n k = some (ref, some m) →
    c.find? ref = some m

/-- The replica knows what the ledger has. -/
structure Tracks (c : Replica) (K : Ledger) : Prop where
  settling : c.Settling [] []
  current : c.Current
  ledger : c.ledger = K

variable {c c' : Replica} {id : ContentId} {n : Serial} {state : WireState} {K : Ledger}
  {unlinked : List Serial} {undrained : List ContentId} {stored : List (ContentId × Serial)}
  {entries : List (ContentId × WireState)}

theorem Settling.isSome_ledger (h : c.Settling unlinked undrained) (id : ContentId) :
    (c.ledger id).isSome = (c.find? id).isSome := by
  rw [ledger]
  cases hfound : c.find? id with
  | none => rfl
  | some n =>
      obtain ⟨state, hstate, -⟩ := Option.map_eq_some_iff.mp (h.named id n hfound)
      rw [Option.bind_some, hstate]
      rfl

theorem ledger_congr (hfind : c'.find? = c.find?) (hstate : c'.arena.state? = c.arena.state?) :
    c'.ledger = c.ledger := by
  funext id
  rw [ledger, ledger, hfind, hstate]

/-! ## Steps of a call -/

theorem Settling.ledger_keep (h : c.Settling unlinked undrained) (id : ContentId)
    (state : WireState) : (c.keep id state).ledger = Function.update c.ledger id (some state) := by
  have hpush (n : Serial) : (c.keep id state).arena.state? n =
      if n = c.arena.next then some state else c.arena.state? n :=
    c.arena.state?_push (.ofState state) n
  funext other
  rw [ledger, find?_keep, Function.update_apply]
  split
  · rw [Option.bind_some, hpush, if_pos rfl]
  · rw [ledger]
    cases hfound : c.find? other with
    | none => rfl
    | some n =>
        have hne : n ≠ c.arena.next := by
          rintro rfl
          have hname := h.named other _ hfound
          simp [Arena.id?, Arena.state?, Arena.get?_next] at hname
        rw [Option.bind_some, Option.bind_some, hpush, if_neg hne]

/-- A new instance has no filled slots, and nothing that is known was waiting for it. -/
theorem Current.keep (hc : c.Current) (hnew : c.find? id = none) (state : WireState) :
    (c.keep id state).Current := by
  intro other n hfound k ref m hslot
  have hslot := (c.arena.slotAt?_push state n k).symm.trans hslot
  rw [find?_keep] at hfound ⊢
  split at hslot
  · obtain ⟨r, -, hr⟩ := Option.map_eq_some_iff.mp hslot
    simp at hr
  · next hold =>
      split at hfound
      · exact absurd (Option.some.inj hfound).symm hold
      · have hknown := hc other n hfound k ref m hslot
        rw [if_neg]
        · exact hknown
        · rintro rfl
          simp [hnew] at hknown

theorem Current.link (hc : c.Current) (n : Serial) : (c.link n).Current := by
  intro other p hfound k ref m hslot
  rw [find?_link] at hfound ⊢
  by_cases hp : p = n
  · subst hp
    rw [slotAt?_link] at hslot
    obtain ⟨⟨r, target⟩, hold, heq⟩ := Option.map_eq_some_iff.mp hslot
    obtain ⟨rfl, htarget⟩ := Prod.mk.inj heq
    cases target with
    | none => simpa using htarget
    | some m' =>
        obtain rfl : m' = m := by simpa using htarget
        exact hc other p hfound k r m' hold
  · rw [slotAt?_link_of_ne c hp] at hslot
    exact hc other p hfound k ref m hslot

theorem Current.drain (hc : c.Current) (h : c.Settling unlinked undrained)
    (hknown : c.find? id = some n) : (c.drain id n).Current := by
  intro other p hfound k ref m hslot
  rw [find?_drain] at hfound ⊢
  rw [arena_drain, Arena.slotAt?_serveAll] at hslot
  obtain ⟨⟨r, target⟩, hold, heq⟩ := Option.map_eq_some_iff.mp hslot
  split at heq
  · next hwaiting =>
      -- the slot was empty, so it has been filled with what is known now
      have haimed := (h.aimed id p k hwaiting).1
      rw [hold] at haimed
      obtain ⟨rfl, rfl⟩ := Prod.mk.inj (Option.some.inj haimed)
      obtain ⟨rfl, htarget⟩ := Prod.mk.inj heq
      obtain rfl : n = m := by simpa using htarget
      exact hknown
  · obtain ⟨rfl, rfl⟩ := Prod.mk.inj heq
    exact hc other p hfound k r m hold

theorem ledger_link (c : Replica) (n : Serial) : (c.link n).ledger = c.ledger :=
  ledger_congr (funext (find?_link c n)) (funext (state?_link c n))

theorem ledger_drain (c : Replica) (id : ContentId) (n : Serial) :
    (c.drain id n).ledger = c.ledger := by
  refine ledger_congr (funext (find?_drain c id n)) ?_
  funext p
  rw [arena_drain, Arena.state?_serveAll]

/-! ## Messages -/

theorem Tracks.find?_eq_none (h : c.Tracks K) (hnew : K id = none) : c.find? id = none := by
  have hsome := h.settling.isSome_ledger id
  rw [h.ledger, hnew] at hsome
  exact Option.not_isSome_iff_eq_none.mp (by simp [← hsome])

theorem Tracks.insert (h : c.Tracks K) (hnew : K id = none) (hname : state.contentId = id) :
    (c.insert id state).Tracks (Function.update K id (some state)) := by
  refine ⟨h.settling.insert id state, ?_, ?_⟩
  · have hkept := h.settling.keep hname
    have hlinked := hkept.link List.not_mem_nil
    rw [insert_of_named hname]
    refine ((h.current.keep (h.find?_eq_none hnew) state).link _).drain hlinked ?_
    rw [find?_link, find?_keep, if_pos rfl]
  · rw [insert_of_named hname, ledger_drain, ledger_link, h.settling.ledger_keep, h.ledger]

theorem ledger_remove (c : Replica) (id : ContentId) :
    (c.remove id).ledger = Function.update c.ledger id none := by
  funext other
  rw [ledger, find?_remove, Function.update_apply]
  split <;> rfl

/-- What is removed stands in no slot of what is known. -/
theorem Tracks.remove (h : c.Tracks K)
    (hunused : ∀ other state, K other = some state → id ∉ state.references) :
    (c.remove id).Tracks (Function.update K id none) := by
  refine ⟨h.settling.remove id, ?_, by rw [ledger_remove, h.ledger]⟩
  intro other n hfound k ref m hslot
  rw [find?_remove] at hfound ⊢
  split at hfound
  · simp at hfound
  · rw [if_neg]
    · exact h.current other n hfound k ref m hslot
    · rintro rfl
      obtain ⟨i, hi, hk⟩ := Option.bind_eq_some_iff.mp hslot
      have hstate : K other = some i.state := by
        rw [← h.ledger, Replica.ledger, hfound, Option.bind_some, Arena.state?]
        exact congrArg (Option.map _) hi
      refine hunused other i.state hstate ?_
      rw [← h.settling.shaped n i hi]
      exact List.mem_map.mpr ⟨_, List.mem_of_getElem? hk, rfl⟩

theorem Tracks.of_eq (h : c.Tracks K) (hs : c'.Settling [] []) (harena : c'.arena = c.arena)
    (hknown : c'.known = c.known) : c'.Tracks K := by
  have hfind : c'.find? = c.find? := by
    funext id
    rw [find?, hknown, find?]
  refine ⟨hs, ?_, ?_⟩
  · intro id n hfound k ref m hslot
    rw [hfind] at hfound ⊢
    rw [harena] at hslot
    exact h.current id n hfound k ref m hslot
  · rw [ledger_congr hfind (by rw [harena]), h.ledger]

/-! ## Requests -/

theorem load_unchanged {callback : Callback} (hlink : ∀ p k, callback ≠ .link p k) (c : Replica)
    (id : ContentId) :
    (c.load id callback).arena = c.arena ∧ (c.load id callback).known = c.known := by
  rw [load]
  split
  · next n _ =>
      obtain ⟨updates, notices, heq⟩ := run_eq c n callback
      rw [heq]
      cases callback with
      | link p k => exact absurd rfl (hlink p k)
      | notify tag => exact ⟨rfl, rfl⟩
      | update target change => exact ⟨rfl, rfl⟩
  · exact ⟨rfl, rfl⟩

/-- Requests change neither instances nor what is known. -/
theorem ask_unchanged (c : Replica) (q : Request) :
    (c.ask q).arena = c.arena ∧ (c.ask q).known = c.known := by
  cases q with
  | load id tag => exact load_unchanged (by simp) c id
  | bind entity id => exact load_unchanged (by simp) c id
  | turfIcon turf =>
      rw [ask, turfIcon]
      split
      · exact ⟨rfl, rfl⟩
      · rw [makeTurf]
        split <;> exact ⟨rfl, rfl⟩
  | sharedCopy id =>
      rw [ask, sharedCopy]
      split
      · exact ⟨rfl, rfl⟩
      · split <;> exact ⟨rfl, rfl⟩

theorem Tracks.ask (h : c.Tracks K) (q : Request) : (c.ask q).Tracks K :=
  h.of_eq (h.settling.ask q) (ask_unchanged c q).1 (ask_unchanged c q).2

theorem Tracks.askAll (h : c.Tracks K) (qs : List Request) : (qs.foldl Replica.ask c).Tracks K := by
  induction qs generalizing c with
  | nil => exact h
  | cons q qs ih => exact ih (h.ask q)

/-- A permitted message keeps a replica on the track of the ledger. -/
theorem Tracks.apply {m : Message} (h : c.Tracks K) (hm : K.Permits m) :
    (c.apply m).Tracks (K.apply m) := by
  cases m with
  | snapshot table => exact hm.elim
  | added e => exact h.insert hm.1 hm.2.1
  | removed e => exact h.remove hm.2
  | animate e =>
      have hlink : ∀ p k, Callback.update e.target (.animate e.params) ≠ .link p k := by simp
      have hsame := load_unchanged hlink c e.appearance
      exact h.of_eq (h.settling.load e.appearance (by simp)) hsame.1 hsame.2

/-! ## Tables -/

/-- Each of these ids has not been seen before, and each state is sent under its own name. -/
structure Fresh (c : Replica) (entries : List (ContentId × WireState)) : Prop where
  distinct : entries.Pairwise fun a b => a.1 ≠ b.1
  named : ∀ e ∈ entries, e.2.contentId = e.1
  unknown : ∀ e ∈ entries, c.find? e.1 = none

theorem Fresh.head_named (h : c.Fresh ((id, state) :: entries)) : state.contentId = id :=
  h.named (id, state) List.mem_cons_self

theorem Fresh.head_unknown (h : c.Fresh ((id, state) :: entries)) : c.find? id = none :=
  h.unknown (id, state) List.mem_cons_self

theorem Fresh.tail (h : c.Fresh ((id, state) :: entries)) : (c.keep id state).Fresh entries := by
  obtain ⟨hhead, hrest⟩ := List.pairwise_cons.mp h.distinct
  refine ⟨hrest, fun e he => h.named e (by simp [he]), fun e he => ?_⟩
  rw [find?_keep, if_neg (Ne.symm (hhead e he))]
  exact h.unknown e (by simp [he])

theorem Current.storeAll (hc : c.Current) (h : c.Fresh entries) :
    (c.storeAll entries).1.Current := by
  induction entries generalizing c with
  | nil => exact hc
  | cons entry entries ih =>
      obtain ⟨id, state⟩ := entry
      rw [storeAll_cons_of_named h.head_named]
      exact ih (hc.keep h.head_unknown state) h.tail

/-- Storing entries under ids of their own adds exactly these entries. -/
theorem Settling.ledger_storeAll (h : c.Settling unlinked undrained) (hf : c.Fresh entries)
    (other : ContentId) :
    (c.storeAll entries).1.ledger other = (entries.lookup other).or (c.ledger other) := by
  induction entries generalizing c unlinked undrained with
  | nil => simp [Replica.storeAll]
  | cons entry entries ih =>
      obtain ⟨id, state⟩ := entry
      have hname := hf.head_named
      rw [storeAll_cons_of_named hname, ih (h.keep hname) hf.tail, h.ledger_keep,
        Function.update_apply, List.lookup_cons]
      by_cases heq : other = id
      · subst heq
        have habsent : entries.lookup other = none := by
          rw [List.lookup_eq_none_iff]
          intro e he
          simpa using (List.pairwise_cons.mp hf.distinct).1 e he
        simp [habsent]
      · have hbeq : (other == id) = false := by simpa using heq
        simp [heq, hbeq]

/-- What was stored under an id of its own is what is known under the id. -/
theorem find?_storeAll (h : entries.Pairwise fun a b => a.1 ≠ b.1) :
    (∀ other, (∀ e ∈ entries, e.1 ≠ other) → (c.storeAll entries).1.find? other = c.find? other) ∧
      ∀ s ∈ (c.storeAll entries).2, (c.storeAll entries).1.find? s.1 = some s.2 := by
  induction entries generalizing c with
  | nil =>
      refine ⟨fun other _ => rfl, fun s hs => ?_⟩
      exact absurd hs List.not_mem_nil
  | cons entry entries ih =>
      obtain ⟨id, state⟩ := entry
      obtain ⟨hhead, hrest⟩ := List.pairwise_cons.mp h
      by_cases hname : state.contentId = id
      · obtain ⟨hothers, hstored⟩ := ih (c := c.keep id state) hrest
        rw [storeAll_cons_of_named hname]
        constructor
        · intro other hother
          rw [hothers other fun e he => hother e (by simp [he]), find?_keep,
            if_neg (Ne.symm (hother (id, state) (by simp)))]
        · intro s hs
          rcases List.mem_cons.mp hs with rfl | hs
          · rw [hothers id fun e he => Ne.symm (hhead e he), find?_keep, if_pos rfl]
          · exact hstored s hs
      · obtain ⟨hothers, hstored⟩ := ih (c := c) hrest
        rw [storeAll_cons_of_misnamed hname]
        exact ⟨fun other hother => hothers other fun e he => hother e (by simp [he]), hstored⟩

theorem find?_linkEach (c : Replica) (stored : List (ContentId × Serial)) (id : ContentId) :
    (c.linkEach stored).find? id = c.find? id := by
  induction stored generalizing c with
  | nil => rfl
  | cons s stored ih => exact (ih (c.link s.2)).trans (find?_link c s.2 id)

theorem Current.linkEach (hc : c.Current) (stored : List (ContentId × Serial)) :
    (c.linkEach stored).Current := by
  induction stored generalizing c with
  | nil => exact hc
  | cons s stored ih => exact ih (hc.link s.2)

theorem ledger_linkEach (c : Replica) (stored : List (ContentId × Serial)) :
    (c.linkEach stored).ledger = c.ledger := by
  induction stored generalizing c with
  | nil => rfl
  | cons s stored ih => exact (ih (c.link s.2)).trans (ledger_link c s.2)

theorem ledger_drainEach (c : Replica) (stored : List (ContentId × Serial)) :
    (c.drainEach stored).ledger = c.ledger := by
  induction stored generalizing c with
  | nil => rfl
  | cons s stored ih => exact (ih (c.drain s.1 s.2)).trans (ledger_drain c s.1 s.2)

theorem Current.drainEach (hc : c.Current) (h : c.Settling [] (stored.map Prod.fst))
    (hnamed : ∀ s ∈ stored, c.arena.id? s.2 = some s.1)
    (hknown : ∀ s ∈ stored, c.find? s.1 = some s.2) : (c.drainEach stored).Current := by
  induction stored generalizing c with
  | nil => exact hc
  | cons s stored ih =>
      refine ih (hc.drain h (hknown s (by simp))) (h.drain (hnamed s (by simp))) ?_ ?_
      · intro t ht
        rw [id?_drain]
        exact hnamed t (by simp [ht])
      · intro t ht
        rw [find?_drain]
        exact hknown t (by simp [ht])

/-- After a table a replica tracks the table, whatever it knew before. -/
theorem Settling.tracks_applyEntries (h : c.Settling [] [])
    (hdistinct : entries.Pairwise fun a b => a.1 ≠ b.1)
    (hnamed : ∀ e ∈ entries, e.2.contentId = e.1) :
    (c.applyEntries entries).Tracks fun id => entries.lookup id := by
  have hfresh : c.forgetAll.Fresh entries :=
    ⟨hdistinct, hnamed, fun e _ => c.find?_forgetAll e.1⟩
  have hnothing : c.forgetAll.Current := by
    intro id n hfound
    simp [find?_forgetAll] at hfound
  have hstored := stored_storeAll c.forgetAll entries
  have hsettling := h.forgetAll.storeAll entries
  rw [List.append_nil, List.append_nil] at hsettling
  have hlinked := hsettling.linkEach hstored.nodup
  refine ⟨h.applyEntries entries, ?_, ?_⟩
  · rw [applyEntries_eq]
    refine ((hnothing.storeAll hfresh).linkEach _).drainEach hlinked ?_ ?_
    · intro s hs
      rw [id?_linkEach]
      exact hstored.named s hs
    · intro s hs
      rw [find?_linkEach]
      exact (find?_storeAll hfresh.distinct).2 s hs
  · funext id
    have hempty : c.forgetAll.ledger id = none := by
      rw [ledger, find?_forgetAll]
      rfl
    rw [applyEntries_eq, ledger_drainEach, ledger_linkEach,
      h.forgetAll.ledger_storeAll hfresh, hempty, Option.or_none]

end Replica
end AppearanceSync
