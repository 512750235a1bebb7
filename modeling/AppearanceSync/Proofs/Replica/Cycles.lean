import AppearanceSync.Proofs.Replica.Arrival
import Mathlib.Order.WellFounded

/-!
# Ways that come back

A replica fills every slot whose id is known, and does not look where the slot leads.  So an
instance contains itself only if the states that were brought name one another in a circle,
each by its content id.  No such circle comes about by accident, since an id is a hash of the
very state that would have to contain it; but the hash is short and easily inverted, so one
can be made.  A state that names itself is given below.
-/

namespace AppearanceSync

/-! ## Arenas without circles -/

namespace Arena

variable {a : Arena} {n m : Serial}

open Classical in
/-- The instances that an instance contains, at any level. -/
noncomputable def contained (a : Arena) (n : Serial) : Finset ℕ :=
  (Finset.range a.next).filter fun m => Relation.TransGen a.Holds n m

theorem mem_contained :
    m ∈ a.contained n ↔ m < a.next ∧ Relation.TransGen a.Holds n m := by
  classical
  rw [contained, Finset.mem_filter, Finset.mem_range]

theorem Holds.lt_next (h : a.Holds n m) : n < a.next := by
  obtain ⟨k, id, hslot⟩ := h
  obtain ⟨i, hi, -⟩ := Option.bind_eq_some_iff.mp hslot
  exact lt_next_of_get? hi

/-- Where no good instance contains itself, each contains more than those in its slots. -/
theorem descends_of_closed {good : Serial → Prop} (hin : ∀ n, good n → n < a.next)
    (hclosed : ∀ n, good n → ∀ m, a.Holds n m → good m)
    (h : ∀ n, good n → ¬Relation.TransGen a.Holds n n) :
    a.Descends good fun n => (a.contained n).card := by
  intro n hn m hholds
  have hm := hclosed n hn m hholds
  refine ⟨hm, Finset.card_lt_card (Finset.ssubset_iff_subset_ne.mpr ⟨?_, ?_⟩)⟩
  · intro p hp
    obtain ⟨hp, hway⟩ := mem_contained.mp hp
    exact mem_contained.mpr ⟨hp, .head hholds hway⟩
  · intro heq
    have hmem : m ∈ a.contained n := mem_contained.mpr ⟨hin m hm, .single hholds⟩
    rw [← heq] at hmem
    exact h m hm (mem_contained.mp hmem).2

theorem descends_of_not_transGen (hin : ∀ n m, a.Holds n m → m < a.next)
    (h : ∀ n, ¬Relation.TransGen a.Holds n n) :
    a.Descends (· < a.next) fun n => (a.contained n).card :=
  descends_of_closed (fun _ hn => hn) (fun n _ m => hin n m) fun n _ => h n

/-- A recursion along filled slots comes to an end where every way down does. -/
theorem Descends.wellFounded {weight : Serial → ℕ} (h : a.Descends (· < a.next) weight) :
    WellFounded fun m n => a.Holds n m := by
  refine Subrelation.wf ?_ (InvImage.wf weight Nat.lt_wfRel.wf)
  intro m n hholds
  exact (h n hholds.lt_next m hholds).2

/-- A tree is the same if what stands in the slots has the same trees. -/
theorem unfold_congr {levels levels' : ℕ}
    (h : ∀ m, a.Holds n m → a.unfold levels m = a.unfold levels' m) :
    a.unfold (levels + 1) n = a.unfold (levels' + 1) n := by
  rw [unfold, unfold]
  refine Option.map_congr fun i hi => ?_
  have hslot (s : ContentId × Option Serial) (hs : s ∈ i.slots) :
      slot (a.unfold levels) s = slot (a.unfold levels') s := by
    obtain ⟨k, hk⟩ := List.mem_iff_getElem?.mp hs
    obtain ⟨id, target⟩ := s
    cases target with
    | none => rfl
    | some m =>
        have hholds : a.Holds n m := ⟨k, id, by rw [slotAt?, hi, Option.bind_some, hk]⟩
        simp only [slot, Option.bind_some, h m hholds]
  have hover : i.overlaySlots.map (slot (a.unfold levels)) =
      i.overlaySlots.map (slot (a.unfold levels')) :=
    List.map_congr_left fun s hs => hslot s (List.mem_of_mem_take hs)
  have hunder : i.underlaySlots.map (slot (a.unfold levels)) =
      i.underlaySlots.map (slot (a.unfold levels')) :=
    List.map_congr_left fun s hs => hslot s (List.mem_of_mem_drop hs)
  rw [hover, hunder]

/-- No tree is cut off where every way down comes to an end. -/
theorem Descends.unfold_eq {weight : Serial → ℕ} (h : a.Descends (· < a.next) weight)
    (extra : ℕ) (n : Serial) : a.unfold (a.next + extra) n = a.view? n := by
  by_cases hn : n < a.next
  · refine h.levels_suffice (F := fun l n => a.unfold (l + extra) n = a.unfold l n)
      (fun _ hn => hn) ?_ hn
    intro l n _ hlower
    rw [Nat.add_right_comm]
    exact unfold_congr hlower
  · have hnone : a.get? n = none := Array.getElem?_eq_none_iff.mpr (Nat.not_lt.mp hn)
    have hunfold (l : ℕ) : a.unfold l n = none := by
      cases l with
      | zero => rfl
      | succ l => rw [unfold, hnone, Option.map_none]
    rw [view?, hunfold, hunfold]

end Arena

/-! ## Names in a circle -/

/-- A state that refers to its own content id. -/
def WireState.selfNamed : WireState where
  properties :=
    { Properties.plain with plane := 1547, pixelOffset := ⟨867641, 472775684⟩, color := ⟨125, 2, 9, 5⟩ }
  overlays := [⟨0x1e2feb89414c343c⟩]
  underlays := []

theorem WireState.contentId_selfNamed : selfNamed.contentId = ⟨0x1e2feb89414c343c⟩ := by
  decide +kernel

theorem WireState.selfNamed_mem_references : selfNamed.contentId ∈ selfNamed.references := by
  rw [contentId_selfNamed]
  exact List.mem_cons_self

namespace Replica

open Relation (TransGen)
open WireState (selfNamed selfNamed_mem_references)

variable {c : Replica} {states : List WireState} {state s t : WireState} {n m : Serial}

/-- The states that a call brings. -/
def Call.brought : Call → List WireState
  | .insert _ state => [state]
  | .table entries => entries.map Prod.snd
  | .message (.snapshot sent) => sent.entries.map Prod.snd
  | .message (.added sent) => [sent.appearance]
  | _ => []

/-- One of these states refers to another of them by its content id. -/
def Names (states : List WireState) (s t : WireState) : Prop :=
  s ∈ states ∧ t ∈ states ∧ t.contentId ∈ s.references

/-- There is no circle where every state ranks above those that it refers to. -/
theorem not_transGen_names (rank : WireState → ℕ)
    (h : ∀ s ∈ states, ∀ t ∈ states, t.contentId ∈ s.references → rank t < rank s)
    (s : WireState) : ¬TransGen (Names states) s s := by
  have hlt (t : WireState) (hway : TransGen (Names states) s t) : rank t < rank s := by
    induction hway with
    | single hnames => exact h _ hnames.1 _ hnames.2.1 hnames.2.2
    | tail _ hnames ih => exact (h _ hnames.1 _ hnames.2.1 hnames.2.2).trans ih
  exact fun hway => Nat.lt_irrefl _ (hlt s hway)

theorem AllStates.call (h : c.AllStates (· ∈ states)) (call : Call)
    (hcall : ∀ s ∈ call.brought, s ∈ states) : (c.call call).AllStates (· ∈ states) := by
  cases call with
  | insert id state => exact h.insert (hcall state (by simp [Call.brought])) id
  | table entries =>
      exact h.applyEntries fun e he => hcall e.2 (List.mem_map_of_mem he)
  | remove id => exact h
  | message m =>
      cases m with
      | snapshot table => exact h.applyEntries fun e he => hcall e.2 (List.mem_map_of_mem he)
      | added a => exact h.insert (hcall a.appearance (by simp [Call.brought])) a.id
      | removed r => exact h
      | animate e =>
          refine h.of_state?_eq ?_
          change (c.load e.appearance (.update e.target (.animate e.params))).arena.state? = _
          rw [(load_unchanged (by simp) c e.appearance).1]
  | request q =>
      refine h.of_state?_eq ?_
      change (c.ask q).arena.state? = _
      rw [(ask_unchanged c q).1]

theorem settling_calls (hs : c.Settling [] []) (calls : List Call) :
    (calls.foldl call c).Settling [] [] := by
  induction calls generalizing c with
  | nil => exact hs
  | cons call calls ih => exact ih (hs.call call)

theorem AllStates.calls (h : c.AllStates (· ∈ states)) (calls : List Call)
    (hcalls : ∀ call ∈ calls, ∀ s ∈ call.brought, s ∈ states) :
    (calls.foldl Replica.call c).AllStates (· ∈ states) := by
  induction calls generalizing c with
  | nil => exact h
  | cons call calls ih =>
      obtain ⟨hcall, hcalls⟩ := List.forall_mem_cons.mp hcalls
      exact ih (h.call call hcall) hcalls

/-- What stands in a slot has a state whose id the slot's own state refers to. -/
theorem Settling.names_of_holds (hs : c.Settling [] []) (h : c.AllStates (· ∈ states))
    (hholds : c.arena.Holds n m) : ∃ s t, c.arena.state? n = some s ∧
      c.arena.state? m = some t ∧ Names states s t := by
  obtain ⟨k, id, hslot⟩ := hholds
  obtain ⟨i, hi, hk⟩ := Option.bind_eq_some_iff.mp hslot
  have hstate : c.arena.state? n = some i.state := by rw [Arena.state?, hi, Option.map_some]
  obtain ⟨t, ht, hid⟩ := Option.map_eq_some_iff.mp (hs.filled n k id m hslot)
  have href : id ∈ i.state.references := by
    rw [← hs.shaped n i hi]
    exact List.mem_map_of_mem (List.mem_of_getElem? hk)
  exact ⟨i.state, t, hstate, ht, h n _ hstate, h m t ht, hid ▸ href⟩

theorem Settling.names_of_transGen (hs : c.Settling [] []) (h : c.AllStates (· ∈ states))
    (hway : TransGen c.arena.Holds n m) : ∃ s t, c.arena.state? n = some s ∧
      c.arena.state? m = some t ∧ TransGen (Names states) s t := by
  induction hway with
  | single hholds =>
      obtain ⟨s, t, hn, hm, hnames⟩ := hs.names_of_holds h hholds
      exact ⟨s, t, hn, hm, .single hnames⟩
  | tail _ hholds ih =>
      obtain ⟨s, t, hn, hm, hnames⟩ := ih
      obtain ⟨t', u, hm', hp, hlast⟩ := hs.names_of_holds h hholds
      obtain rfl : t = t' := Option.some.inj (hm.symm.trans hm')
      exact ⟨s, u, hn, hp, hnames.tail hlast⟩

/-- A state that names itself is linked to itself as soon as it is stored. -/
theorem holds_insert_self (c : Replica) (h : state.contentId ∈ state.references) :
    (c.insert state.contentId state).arena.Holds c.arena.next c.arena.next := by
  obtain ⟨k, hk⟩ := List.mem_iff_getElem?.mp h
  have hslot : (c.keep state.contentId state).arena.slotAt? c.arena.next k =
      some (state.contentId, none) := by
    refine (c.arena.slotAt?_push state _ k).trans ?_
    rw [if_pos rfl, hk, Option.map_some]
  have hfound : (c.keep state.contentId state).find? state.contentId = some c.arena.next := by
    rw [find?_keep, if_pos rfl]
  refine ⟨k, state.contentId, ?_⟩
  rw [insert_of_named rfl]
  apply (grows_drain _ _ _).slot
  rw [slotAt?_link, hslot, Option.map_some, hfound, Option.none_or]

/-- Whatever a replica is told: an instance contains itself only if the states that were brought
name one another in a circle.  Without one, every recursion along filled slots comes to an end
and no tree is cut off.  With one nothing stops it: a state that names itself is stored and
contains itself. -/
theorem contains_itself_only_along_names (tileSize : ℕ) (calls : List Call) :
    let c := calls.foldl call (empty tileSize)
    let states := calls.flatMap Call.brought
    (∀ n, TransGen c.arena.Holds n n → ∃ s ∈ states, TransGen (Names states) s s) ∧
    ((∀ s ∈ states, ¬TransGen (Names states) s s) →
      (∀ n, ¬TransGen c.arena.Holds n n) ∧ (WellFounded fun m n => c.arena.Holds n m) ∧
        ∀ extra n, c.arena.unfold (c.arena.next + extra) n = c.arena.view? n) ∧
    ∀ state, state.contentId ∈ state.references →
      TransGen (c.insert state.contentId state).arena.Holds c.arena.next c.arena.next := by
  intro c states
  have hs : c.Settling [] [] := settling_calls (settling_empty tileSize) calls
  have hall : c.AllStates (· ∈ states) := (allStates_empty tileSize _).calls calls
    fun call hcall s hs => List.mem_flatMap.mpr ⟨call, hcall, hs⟩
  have hcircle (n : Serial) (hway : TransGen c.arena.Holds n n) :
      ∃ s ∈ states, TransGen (Names states) s s := by
    obtain ⟨s, t, hn, hn', hnames⟩ := hs.names_of_transGen hall hway
    obtain rfl : s = t := Option.some.inj (hn.symm.trans hn')
    exact ⟨s, hall n s hn, hnames⟩
  refine ⟨hcircle, fun hnone => ?_, fun state h => .single (c.holds_insert_self h)⟩
  have hnot (n : Serial) : ¬TransGen c.arena.Holds n n := by
    intro hway
    obtain ⟨s, hmem, hnames⟩ := hcircle n hway
    exact hnone s hmem hnames
  have hin (n m : Serial) (hholds : c.arena.Holds n m) : m < c.arena.next := by
    obtain ⟨-, t, -, hm, -⟩ := hs.names_of_holds hall hholds
    obtain ⟨i, hi, -⟩ := Option.map_eq_some_iff.mp hm
    exact (Array.getElem?_eq_some_iff.mp hi).1
  have hdescends := Arena.descends_of_not_transGen hin hnot
  exact ⟨hnot, hdescends.wellFounded, hdescends.unfold_eq⟩

/-- The replica after a state that names itself has been sent to it. -/
theorem selfNamed_contains_itself :
    let c := [Call.insert ⟨0x1e2feb89414c343c⟩ selfNamed].foldl call (empty 32)
    c.find? ⟨0x1e2feb89414c343c⟩ = some 0 ∧ c.pendingCount = 0 ∧ TransGen c.arena.Holds 0 0 ∧
      ¬WellFounded fun m n => c.arena.Holds n m := by
  intro c
  have hholds : c.arena.Holds 0 0 := ⟨0, ⟨0x1e2feb89414c343c⟩, by decide +kernel⟩
  refine ⟨by decide +kernel, by decide +kernel, .single hholds, fun hwf => ?_⟩
  exact hwf.irrefl.irrefl 0 hholds

/-- Three calls, of which the last brings a state that names itself: before it every way down
ends, and after it an instance contains itself. -/
theorem contains_itself_only_along_names_three :
    let leaf : WireState := .ofProperties .plain
    let whole : WireState := ⟨.plain, [leaf.contentId], []⟩
    let calls : List Call := [.insert whole.contentId whole, .insert leaf.contentId leaf]
    let before := calls.foldl call (empty 32)
    let after := before.insert selfNamed.contentId selfNamed
    (WellFounded fun m n => before.arena.Holds n m) ∧
      TransGen after.arena.Holds before.arena.next before.arena.next ∧
      ∃ s ∈ [whole, leaf, selfNamed], TransGen (Names [whole, leaf, selfNamed]) s s := by
  intro leaf whole calls before after
  have hbefore := contains_itself_only_along_names 32 calls
  let bad : Call := .insert selfNamed.contentId selfNamed
  have hafter := contains_itself_only_along_names 32 (calls ++ [bad])
  have hnone (s : WireState) (_ : s ∈ [whole, leaf]) : ¬TransGen (Names [whole, leaf]) s s :=
    not_transGen_names (fun s => s.overlays.length) (by decide +kernel) s
  have hself : TransGen after.arena.Holds before.arena.next before.arena.next :=
    hbefore.2.2 selfNamed selfNamed_mem_references
  have hstates : (calls ++ [bad]).flatMap Call.brought = [whole, leaf, selfNamed] := rfl
  have hlast : (calls ++ [bad]).foldl call (empty 32) = after := by
    rw [List.foldl_append, List.foldl_cons, List.foldl_nil]
    rfl
  rw [hlast, hstates] at hafter
  exact ⟨(hbefore.2.1 hnone).2.1, hself, hafter.1 before.arena.next hself⟩

end Replica
end AppearanceSync
