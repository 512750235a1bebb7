import AppearanceSync.Proofs.Scene.Interning

/-!
# Changing what a sprite shows

A sprite gives up what it shows only when it holds what it is to show next.  So what the two
have in common is never without a holder.  First what the new tree lacks is announced, from the
leaves up, and then what nobody can reach any more is removed, from the top down.
-/

namespace AppearanceSync

/-- A list has no repetitions if nothing in it comes again. -/
theorem nodup_of_notMem_before {α : Type} {xs : List α}
    (h : ∀ before x rest, xs = before ++ x :: rest → x ∉ before) : xs.Nodup := by
  induction xs using List.reverseRecOn with
  | nil => exact List.nodup_nil
  | append_singleton xs x ih =>
      have hbefore : xs.Nodup := by
        refine ih fun before y rest heq => h before y (rest ++ [x]) ?_
        rw [heq, List.append_assoc, List.cons_append]
      have hlast : x ∉ xs := h xs x [] rfl
      rw [← List.concat_eq_append, List.nodup_concat]
      exact ⟨hlast, hbefore⟩

namespace Ledger

/-- Each of the states is new, and whatever it refers to was known or comes before it. -/
structure Introduces (K : Ledger) (new : List WireState) : Prop where
  unknown : ∀ s ∈ new, K s.contentId = none
  nodup : (new.map WireState.contentId).Nodup
  below : ∀ before s rest, new = before ++ s :: rest →
    ∀ ref ∈ s.references, (K ref).isSome ∨ ref ∈ before.map WireState.contentId

/-- Each of the ids is known, and whatever refers to it comes before it. -/
structure Withdraws (K : Ledger) (gone : List ContentId) : Prop where
  known : ∀ id ∈ gone, (K id).isSome
  nodup : gone.Nodup
  above : ∀ before id rest, gone = before ++ id :: rest →
    ∀ other, K.Refers other id → other ∈ before

variable {K : Ledger} {new : List WireState} {gone : List ContentId}

/-- The messages that announce these states. -/
def additions (new : List WireState) : List Message := new.map fun s => .added ⟨s.contentId, s⟩

/-- The messages that take these ids back. -/
def removals (gone : List ContentId) : List Message := gone.map fun id => .removed ⟨id⟩

theorem isSome_replay_additions (K : Ledger) (new : List WireState) (id : ContentId) :
    (K.replay (additions new) id).isSome ↔ (K id).isSome ∨ id ∈ new.map WireState.contentId := by
  induction new generalizing K with
  | nil => simp [additions, replay]
  | cons s new ih =>
      refine (ih (K.apply (.added ⟨s.contentId, s⟩))).trans ?_
      rw [apply, Function.update_apply, List.map_cons, List.mem_cons]
      by_cases hid : id = s.contentId
      · simp [hid]
      · simp [hid]

theorem replay_removals (K : Ledger) (gone : List ContentId) (id : ContentId) :
    K.replay (removals gone) id = if id ∈ gone then none else K id := by
  induction gone generalizing K with
  | nil => rfl
  | cons other gone ih =>
      refine (ih (K.apply (.removed ⟨other⟩))).trans ?_
      rw [apply, Function.update_apply]
      by_cases hid : id = other
      · simp [hid]
      · simp [hid]

/-- What may be announced one after the other is introduced. -/
theorem Orderly.introduces (h : K.Orderly (additions new)) : K.Introduces new := by
  have hturn (before : List WireState) (s : WireState) (rest : List WireState)
      (hnew : new = before ++ s :: rest) :
      (K.replay (additions before)).Permits (.added ⟨s.contentId, s⟩) := by
    rw [hnew, additions, List.map_append, List.map_cons] at h
    exact h.split.2.1
  have hfresh (before : List WireState) (s : WireState) (rest : List WireState)
      (hnew : new = before ++ s :: rest) :
      K s.contentId = none ∧ s.contentId ∉ before.map WireState.contentId := by
    have hreplay := isSome_replay_additions K before s.contentId
    rw [(hturn before s rest hnew).1, Option.isSome_none, Bool.false_eq_true, false_iff, not_or,
      Option.not_isSome_iff_eq_none] at hreplay
    exact hreplay
  constructor
  · intro s hs
    obtain ⟨before, rest, hnew⟩ := List.append_of_mem hs
    exact (hfresh before s rest hnew).1
  · refine nodup_of_notMem_before fun before id rest hids => ?_
    obtain ⟨ss, ts, hnew, rfl, hts⟩ := List.map_eq_append_iff.mp hids
    obtain ⟨s, ts, rfl, rfl, -⟩ := List.map_eq_cons_iff.mp hts
    exact (hfresh ss s ts hnew).2
  · intro before s rest hnew ref href
    obtain ⟨-, -, hrefs⟩ := hturn before s rest hnew
    exact (isSome_replay_additions K before ref).mp (hrefs ref href)

/-- What may be taken back one after the other is withdrawn. -/
theorem Orderly.withdraws (h : K.Orderly (removals gone)) : K.Withdraws gone := by
  have hturn (before : List ContentId) (id : ContentId) (rest : List ContentId)
      (hgone : gone = before ++ id :: rest) :
      (K.replay (removals before)).Permits (.removed ⟨id⟩) := by
    rw [hgone, removals, List.map_append, List.map_cons] at h
    exact h.split.2.1
  have hpresent (before : List ContentId) (id : ContentId) (rest : List ContentId)
      (hgone : gone = before ++ id :: rest) : id ∉ before ∧ (K id).isSome := by
    have hsome := (hturn before id rest hgone).1
    rw [replay_removals] at hsome
    split at hsome
    · cases hsome
    · next hnot => exact ⟨hnot, hsome⟩
  constructor
  · intro id hid
    obtain ⟨before, rest, hgone⟩ := List.append_of_mem hid
    exact (hpresent before id rest hgone).2
  · exact nodup_of_notMem_before fun before id rest hgone => (hpresent before id rest hgone).1
  · intro before id rest hgone other href
    obtain ⟨state, hstate, href⟩ := href
    obtain ⟨-, hunused⟩ := hturn before id rest hgone
    -- what has not been taken back by then still has its references
    by_contra hnot
    refine hunused other state ?_ href
    exact (replay_removals K before other).trans ((if_neg hnot).trans hstate)

end Ledger

namespace Registry

open Ledger (additions removals)

variable {r : Registry} {out : Multiset Handle} {ds : List Deed} {d : Descriptor}
  {handles : List Handle}

theorem messagesOf_eq (entries : List (OutboundEvent × Registry)) :
    messagesOf entries = (entries.map Prod.fst).filterMap OutboundEvent.message? := by
  rw [messagesOf, List.filterMap_map]
  rfl

theorem message?_added (new : List WireState) :
    (new.map added).filterMap OutboundEvent.message? = additions new := by
  rw [List.filterMap_map, additions, ← List.filterMap_eq_map]
  rfl

theorem message?_removed (gone : List ContentId) :
    (gone.map removed).filterMap OutboundEvent.message? = removals gone := by
  rw [List.filterMap_map, removals, ← List.filterMap_eq_map]
  rfl

/-- Giving up handles announces removals only. -/
theorem exists_removed_of_givesUp (r : Registry) (h : ∀ d ∈ ds, d.GivesUp) :
    ∃ gone : List ContentId, (r.journal ds).map Prod.fst = gone.map removed := by
  induction ds generalizing r with
  | nil => exact ⟨[], rfl⟩
  | cons d ds ih =>
      obtain ⟨gone, hgone⟩ := ih (r.perform d) fun d hd => h d (List.mem_cons_of_mem _ hd)
      cases d with
      | letGo a =>
          rw [journal, List.map_append, hgone, announced?]
          split
          · exact ⟨a.id :: gone, rfl⟩
          · exact ⟨gone, rfl⟩
      | _ => exact (h _ List.mem_cons_self).elim

/-- What is added for a tree may be announced in this order. -/
theorem Balanced.introduces_missing (h : r.Balanced out)
    (hadded : r.Enriches d.states (r.internTree d).1) :
    r.ledger.Introduces (r.missing d.states) := by
  have hcourse := internTree_course r d out h
  have hjournal : (r.journal (r.internTreeDeeds d)).map Prod.fst = (r.missing d.states).map added :=
    List.append_cancel_left ((hcourse.waiting h.isOpen).symm.trans hadded.waiting)
  have horderly := (hcourse.chronicle h).orderly
  rw [messagesOf_eq, hjournal, message?_added] at horderly
  exact horderly.introduces

/-- Giving up handles takes back what has no holder any more. -/
theorem Balanced.exists_withdrawal (h : r.Balanced (handles + out)) :
    ∃ gone, (r.releaseAll handles).outbox.waiting.toList =
        r.outbox.waiting.toList ++ gone.map removed ∧
      r.ledger.Withdraws gone ∧
      ∀ id, (r.releaseAll handles).ledger id = if id ∈ gone then none else r.ledger id := by
  have hcourse := releaseAll_course r handles out h
  obtain ⟨gone, hgone⟩ := r.exists_removed_of_givesUp (givesUp_releaseAllDeeds r handles)
  have hchronicle := hcourse.chronicle h
  have hmessages : messagesOf (r.journal (r.releaseAllDeeds handles)) = removals gone := by
    rw [messagesOf_eq, hgone, message?_removed]
  have horderly := hchronicle.orderly
  have hreplay := hchronicle.replay_eq
  rw [hmessages] at horderly hreplay
  refine ⟨gone, ?_, horderly.withdraws, fun id => ?_⟩
  · rw [hcourse.waiting h.isOpen, hgone]
  · rw [← hreplay, Ledger.replay_removals]

theorem mem_missing_iff {s : WireState} {states : List WireState} :
    s ∈ r.missing states ↔ s ∈ states ∧ r.contains s.contentId = false := by
  rw [missing, List.mem_eraseDups, List.mem_filter, Bool.not_eq_true']

/-- If nothing is hashed alike, the instance of a tree is the tree. -/
theorem Balanced.toDescriptor_internTree (h : r.Balanced out)
    (hadded : r.Enriches d.states (r.internTree d).1) :
    (r.internTree d).2.toDescriptor = .ok d := by
  have hafter := (internTree_course r d out h).balanced h
  have hfound := hafter.find?_of_mem (Multiset.mem_cons_self _ _)
  rw [hafter.toDescriptor_eq_ok_iff hfound, id_internTree r d out h]
  refine Ledger.unfolds_of_states fun s hs => ?_
  exact (hadded.ledger _ _).mpr (Or.inr ⟨hs, rfl⟩)

/-- Handles are exchanged for one to the instance of a tree.  What the tree lacks is added before
anything is removed, and nothing of the tree is removed. -/
theorem Balanced.exists_exchange (h : r.Balanced (handles + out))
    (hadded : r.Enriches d.states (r.internTree d).1) :
    let r' := (r.internTree d).1.releaseAll handles
    ∃ gone, r'.outbox.waiting.toList =
        r.outbox.waiting.toList ++ ((r.missing d.states).map added ++ gone.map removed) ∧
      r.ledger.Withdraws gone ∧
      (∀ id, id ∈ gone ↔ r.contains id = true ∧ r'.contains id = false) ∧
      ∀ s ∈ d.states, s.contentId ∉ gone := by
  intro r'
  have hafter := (internTree_course r d _ h).balanced h
  rw [← Multiset.add_cons] at hafter
  obtain ⟨gone, hwaiting, hwithdraws, hledger⟩ := hafter.exists_withdrawal
  have hkept (id : ContentId) (s : WireState) (hs : r.ledger id = some s) :
      (r.internTree d).1.ledger id = some s := (hadded.ledger id s).mpr (Or.inl hs)
  -- the new instance is still held, so every state of the tree is still registered
  have hstates : ∀ s ∈ d.states, r'.ledger s.contentId = some s := by
    have hend := (releaseAll_course _ handles _ hafter).balanced hafter
    have hfound := hend.find?_of_mem (Multiset.mem_cons_self _ _)
    have hcopy := h.toDescriptor_internTree hadded
    exact (((hend.toDescriptor_eq_ok_iff hfound).mp hcopy).states hend.contentId_of_ledger).2
  have htree : ∀ s ∈ d.states, s.contentId ∉ gone := by
    intro s hs hmem
    have hsome := hstates s hs
    rw [hledger, if_pos hmem] at hsome
    cases hsome
  have hgone (id : ContentId) : id ∈ gone ↔ r.contains id = true ∧ r'.contains id = false := by
    rw [← isSome_ledger, ← isSome_ledger, hledger]
    constructor
    · intro hmem
      obtain ⟨s, hs⟩ := Option.isSome_iff_exists.mp (hwithdraws.known id hmem)
      obtain hold | ⟨hnew, rfl⟩ := (hadded.ledger id s).mp hs
      · simp [hold, hmem]
      · exact absurd hmem (htree s hnew)
    · rintro ⟨hold, hnone⟩
      obtain ⟨s, hs⟩ := Option.isSome_iff_exists.mp hold
      by_contra hnot
      rw [if_neg hnot, hkept id s hs] at hnone
      cases hnone
  refine ⟨gone, ?_, ⟨?_, hwithdraws.nodup, ?_⟩, hgone, htree⟩
  · rw [hwaiting, hadded.waiting, List.append_assoc]
  · intro id hmem
    rw [isSome_ledger]
    exact ((hgone id).mp hmem).1
  · rintro before id rest heq other ⟨s, hs, href⟩
    exact hwithdraws.above before id rest heq other ⟨s, hkept other s hs, href⟩

/-- Exchanging a handle for one to the same tree announces nothing. -/
theorem Balanced.waiting_exchange_of_same {a : Handle} (h : r.Balanced (handles + out))
    (hhandles : handles = [a]) (hd : a.toDescriptor = .ok d) :
    ((r.internTree d).1.releaseAll handles).outbox.waiting = r.outbox.waiting := by
  have h : r.Balanced (a ::ₘ out) := by rwa [hhandles] at h
  have hfound := h.find?_of_mem (Multiset.mem_cons_self a out)
  obtain ⟨hsame, hwaiting⟩ := h.internTree_of_registered hfound hd
  have hafter := (internTree_course r d _ h).balanced h
  rw [hsame] at hafter
  -- the handle that was taken keeps the instance when the other is given up
  have hheld : a ∈ (r.internTree d).1.allHeld ((r.internTree d).1.outside (a ::ₘ out)) := by
    refine Multiset.mem_add.mpr (Or.inl ?_)
    rw [outside_cons]
    exact Multiset.mem_cons_self a _
  have hkept := hafter.letGo_of_held hheld
  rw [hhandles, releaseAll, List.foldl_cons, List.foldl_nil, release_of_kept hkept,
    outbox_letGo_of_kept hkept, hwaiting]

end Registry

namespace Scene

open Registry (added removed)

variable {s : Scene} {p : Sprite} {i : ℕ} {d : Descriptor}

/-- A sprite takes the handle to what it is to show before it gives the old one up. -/
theorem setAppearance_eq (p : Sprite) (hdepth : d.depth ≤ s.hub.registry.maxDepth) :
    p.setAppearance s.hub.registry d =
      ({ p with appearance := some (s.hub.registry.internTree d).2 },
        (s.hub.registry.internTree d).1.releaseAll p.handles, .ok ()) := by
  rw [Sprite.setAppearance, intern_eq hdepth]
  rfl

theorem step_setAppearance (hp : s.sprites[i]? = some p)
    (hdepth : d.depth ≤ s.hub.registry.maxDepth) :
    s.step (.sprite (.setAppearance i d)) =
      s.change (p.setAppearanceDeeds s.hub.registry d)
        ((s.hub.registry.internTree d).1.releaseAll p.handles)
        (s.sprites.set i { p with appearance := some (s.hub.registry.internTree d).2 }) := by
  rw [step, stepSprite, hp]
  simp only [setAppearance_eq p hdepth]

theorem Unambiguous.enriches (h : s.Unambiguous d) (hs : s.flat.Steady) :
    s.hub.registry.Enriches d.states (s.hub.registry.internTree d).1 := by
  have hlive : s.hub.registry.StatesIn
      {state | state ∈ s.hub.registry.live.map Canonical.toState ++ d.states} := by
    intro id state hstate
    obtain ⟨b, hb, rfl⟩ := Option.map_eq_some_iff.mp hstate
    exact List.mem_append_left _ (List.mem_map_of_mem (Registry.mem_live_iff.mpr ⟨id, hb⟩))
  exact Registry.enriches_internTree h s.hub.registry d _ hs.balanced hlive
    fun state hstate => List.mem_append_right _ hstate

/-- In every run, when a sprite is to show another tree, what the registry lacks of the tree is
announced first, each state once and after all that it refers to, and then the removal of each id
that no handle leads to any more, once and after all that referred to it.  Nothing is announced
both ways, and nothing at all if the sprite shows that tree already. -/
theorem change_without_churn (maxDepth : ℕ) (acts : List Act) (i : ℕ) (p : Sprite) (d : Descriptor)
    (hp : (run maxDepth acts).sprites[i]? = some p) (hdepth : d.depth ≤ maxDepth)
    (hinj : (run maxDepth acts).Unambiguous d) :
    let s := run maxDepth acts
    let s' := s.step (.sprite (.setAppearance i d))
    let r := s.hub.registry
    let new := r.missing d.states
    (p.setAppearance r d).2.2 = .ok () ∧
    (∃ a, s'.sprites[i]? = some { p with appearance := some a } ∧ a.toDescriptor = .ok d) ∧
    ∃ gone, s'.hub.registry.outbox.waiting.toList =
        r.outbox.waiting.toList ++ (new.map added ++ gone.map removed) ∧
      r.ledger.Introduces new ∧
      (∀ id, id ∈ new.map WireState.contentId ↔
        id ∈ d.states.map WireState.contentId ∧ r.contains id = false) ∧
      r.ledger.Withdraws gone ∧
      (∀ id, id ∈ gone ↔ r.contains id = true ∧ ¬∃ b, s'.Reachable b ∧ b.id = id) ∧
      (∀ id ∈ new.map WireState.contentId, id ∉ gone) ∧
      ∀ a, p.appearance = some a → a.toDescriptor = .ok d → new = [] ∧ gone = [] := by
  intro s s' r new
  have hs : s.flat.Steady := steady_run maxDepth acts
  have hlimit : d.depth ≤ r.maxDepth := (maxDepth_run maxDepth acts).symm ▸ hdepth
  have hstep : s' = s.change _ _ _ := step_setAppearance hp hlimit
  have hs' : s'.flat.Steady := steady_step hs _
  have hbalanced : r.Balanced (p.handles + s.others i) := flat_held hp ▸ hs.balanced
  have hadded := hinj.enriches hs
  have hregistry : s'.hub.registry = (r.internTree d).1.releaseAll p.handles := by
    rw [hstep]
    rfl
  have hsprite : s'.sprites[i]? = some { p with appearance := some (r.internTree d).2 } := by
    rw [hstep]
    exact List.getElem?_set_self (List.getElem?_eq_some_iff.mp hp).1
  have hlost (id : ContentId) :
      s'.hub.registry.contains id = false ↔ ¬∃ b, s'.Reachable b ∧ b.id = id := by
    rw [← Bool.not_eq_true, Registry.contains_eq_isSome_find?, Option.isSome_iff_exists]
    simp only [find?_eq_some_iff hs']
  obtain ⟨gone, hwaiting, hwithdraws, hgone, htree⟩ := hbalanced.exists_exchange hadded
  rw [← hregistry] at hwaiting hgone
  refine ⟨by rw [setAppearance_eq p hlimit], ⟨_, hsprite, hbalanced.toDescriptor_internTree hadded⟩,
    gone, hwaiting, hbalanced.introduces_missing hadded, ?_, hwithdraws, ?_, ?_, ?_⟩
  · intro id
    constructor
    · intro hid
      obtain ⟨st, hst, rfl⟩ := List.mem_map.mp hid
      obtain ⟨hmem, hnew⟩ := Registry.mem_missing_iff.mp hst
      exact ⟨List.mem_map_of_mem hmem, hnew⟩
    · rintro ⟨hid, hnew⟩
      obtain ⟨st, hst, rfl⟩ := List.mem_map.mp hid
      exact List.mem_map_of_mem (Registry.mem_missing_iff.mpr ⟨hst, hnew⟩)
  · intro id
    rw [hgone, hlost]
  · intro id hid
    obtain ⟨st, hst, rfl⟩ := List.mem_map.mp hid
    exact htree st (Registry.mem_missing_iff.mp hst).1
  · intro a ha hd
    have hsame := hbalanced.waiting_exchange_of_same (by rw [Sprite.handles, ha]; rfl) hd
    rw [← hregistry, ← Array.toList_inj, hwaiting, List.append_right_eq_self] at hsame
    obtain ⟨hnew, hgone⟩ := List.append_eq_nil_iff.mp hsame
    exact ⟨List.map_eq_nil_iff.mp hnew, List.map_eq_nil_iff.mp hgone⟩

/-- A part that was drawn over a sprite is drawn under it from now on. -/
theorem change_without_churn_shared :
    let part := Descriptor.tinted ⟨4, 4⟩ ⟨191, 207, 225, 185⟩
    let first : Descriptor := ⟨.plain, [part], []⟩
    let second : Descriptor := ⟨.plain, [], [part]⟩
    let s := run 1 [.sprite .spawn, .sprite (.setAppearance 0 first)]
    let s' := s.step (.sprite (.setAppearance 0 second))
    s.sprites[0]?.isSome ∧ second.depth ≤ 1 ∧ s.Unambiguous second ∧
      s.hub.registry.missing second.states = [second.state] ∧
      ∃ gone : List ContentId, gone.length = 1 ∧
        s'.hub.registry.outbox.waiting.toList = s.hub.registry.outbox.waiting.toList ++
          ([added second.state] ++ gone.map removed) := by
  intro part first second s s'
  have hsprite : s.sprites[0]?.isSome := by decide +kernel
  have hdepth : second.depth ≤ 1 := by
    simp [second, part, Descriptor.depth, Descriptor.deepestOf, Descriptor.children,
      Descriptor.tinted, Descriptor.ofProperties]
  have hpairs : ∀ x ∈ s.hub.registry.live.map Canonical.toState ++ second.states,
      ∀ y ∈ s.hub.registry.live.map Canonical.toState ++ second.states,
        x.contentId = y.contentId → x = y := by
    decide +kernel
  have hinj : s.Unambiguous second := fun x hx y hy => hpairs x hx y hy
  have hmissing : s.hub.registry.missing second.states = [second.state] := by decide +kernel
  have hsize : s'.hub.registry.outbox.waiting.toList.length =
      s.hub.registry.outbox.waiting.toList.length + 2 := by
    decide +kernel
  obtain ⟨p, hp⟩ := Option.isSome_iff_exists.mp hsprite
  obtain ⟨-, -, gone, hwaiting, -⟩ :=
    change_without_churn 1 [.sprite .spawn, .sprite (.setAppearance 0 first)] 0 p second hp hdepth
      hinj
  change s'.hub.registry.outbox.waiting.toList = s.hub.registry.outbox.waiting.toList ++
    ((s.hub.registry.missing second.states).map added ++ gone.map removed) at hwaiting
  rw [hmissing, List.map_singleton] at hwaiting
  have hlength := congrArg List.length hwaiting
  rw [hsize, List.length_append, List.length_append, List.length_singleton, List.length_map]
    at hlength
  exact ⟨hsprite, hdepth, hinj, hmissing, gone, by omega, hwaiting⟩

end Scene
end AppearanceSync
