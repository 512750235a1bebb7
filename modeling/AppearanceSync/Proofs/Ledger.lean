import AppearanceSync.Message
import AppearanceSync.Wire.State
import Mathlib.Data.List.Chain
import Mathlib.Logic.Function.Basic

/-!
# Ledgers

A ledger says which appearances a peer has learned of from messages, and in
which wire state each of them is.  It knows nothing of instances, holders or
slots, so it is what a server's announcements and a client's replica can both be
compared with.

The module says which message is permitted at a ledger and what follows for a
list of messages of which each is permitted when its turn comes.
-/

namespace AppearanceSync

/-- The wire states of appearances by id. -/
abbrev Ledger := ContentId → Option WireState

namespace Ledger

/-- The ledger of a peer that has heard nothing. -/
def empty : Ledger := fun _ => none

/-- The ledger of a table. -/
def ofTable (table : Snapshot) : Ledger := fun id => table.entries.lookup id

/-- The ledger after a message. -/
def apply (K : Ledger) : Message → Ledger
  | .snapshot table => ofTable table
  | .added e => Function.update K e.id (some e.appearance)
  | .removed e => Function.update K e.id none
  | .animate _ => K

/-- The ledger after messages in order. -/
def replay (K : Ledger) (ms : List Message) : Ledger := ms.foldl apply K

/-- Whatever an appearance refers to is in the ledger. -/
def Closed (K : Ledger) : Prop :=
  ∀ id state, K id = some state → ∀ ref ∈ state.references, (K ref).isSome

/-- What may be announced to a peer that has this ledger: a new appearance under
its own name and after all that it refers to, the removal of a known appearance
that nothing refers to, and an animation towards a known appearance. -/
def Permits (K : Ledger) : Message → Prop
  | .snapshot _ => False
  | .added e => K e.id = none ∧ e.appearance.contentId = e.id ∧
      ∀ ref ∈ e.appearance.references, (K ref).isSome
  | .removed e => (K e.id).isSome ∧ ∀ id state, K id = some state → e.id ∉ state.references
  | .animate e => (K e.appearance).isSome

/-- Each message is permitted when its turn comes. -/
def Orderly : Ledger → List Message → Prop
  | _, [] => True
  | K, m :: ms => K.Permits m ∧ (K.apply m).Orderly ms

variable {K : Ledger} {m : Message} {ms before after : List Message} {id : ContentId}

theorem closed_empty : empty.Closed := by
  intro id state h
  simp [empty] at h

theorem Orderly.split (h : K.Orderly (before ++ after)) :
    K.Orderly before ∧ (K.replay before).Orderly after := by
  induction before generalizing K with
  | nil => exact ⟨trivial, h⟩
  | cons m before ih =>
      obtain ⟨hm, hrest⟩ := h
      obtain ⟨hbefore, hafter⟩ := ih hrest
      exact ⟨⟨hm, hbefore⟩, hafter⟩

/-! ## Closed ledgers -/

/-- A permitted message keeps a ledger closed. -/
theorem Closed.apply (h : K.Closed) (hm : K.Permits m) : (K.apply m).Closed := by
  cases m with
  | snapshot table => exact hm.elim
  | added e =>
      obtain ⟨-, -, hrefs⟩ := hm
      -- nothing is lost, so it is enough that every reference was known before
      have hmono (ref : ContentId) (href : (K ref).isSome) :
          (Function.update K e.id (some e.appearance) ref).isSome := by
        by_cases heq : ref = e.id
        · simp [heq]
        · rwa [Function.update_of_ne heq]
      intro id state hid ref href
      apply hmono
      by_cases heq : id = e.id
      · rw [heq, Ledger.apply, Function.update_self] at hid
        obtain rfl := Option.some.inj hid
        exact hrefs ref href
      · rw [Ledger.apply, Function.update_of_ne heq] at hid
        exact h id state hid ref href
  | removed e =>
      obtain ⟨-, hunused⟩ := hm
      intro id state hid ref href
      by_cases heq : id = e.id
      · simp [heq, Ledger.apply] at hid
      rw [Ledger.apply, Function.update_of_ne heq] at hid
      have hne : ref ≠ e.id := by
        rintro rfl
        exact hunused id state hid href
      rw [Ledger.apply, Function.update_of_ne hne]
      exact h id state hid ref href
  | animate e => exact h

theorem Closed.replay (h : K.Closed) (hms : K.Orderly ms) : (K.replay ms).Closed := by
  induction ms generalizing K with
  | nil => exact h
  | cons m ms ih =>
      obtain ⟨hm, hrest⟩ := hms
      exact ih (h.apply hm) hrest

/-! ## The life of one id -/

/-- What the messages say of one id in turn: that it is there, or that it is not. -/
def turns (id : ContentId) (ms : List Message) : List Bool :=
  ms.filterMap fun
    | .added e => if e.id = id then some true else none
    | .removed e => if e.id = id then some false else none
    | .snapshot _ | .animate _ => none

/-- In an orderly list the turns of an id alternate, beginning with what is new. -/
theorem Orderly.isChain_turns (h : K.Orderly ms) (id : ContentId) :
    List.IsChain (· ≠ ·) ((K id).isSome :: turns id ms) := by
  induction ms generalizing K with
  | nil => simp [turns]
  | cons m ms ih =>
      obtain ⟨hm, hrest⟩ := h
      have hchain := ih hrest
      cases m with
      | snapshot table => exact hm.elim
      | added e =>
          obtain ⟨hnew, -⟩ := hm
          by_cases heq : e.id = id
          · subst heq
            rw [Ledger.apply, Function.update_self] at hchain
            simpa [turns, hnew] using hchain
          · rw [Ledger.apply, Function.update_of_ne (Ne.symm heq)] at hchain
            simpa [turns, heq] using hchain
      | removed e =>
          obtain ⟨hknown, -⟩ := hm
          by_cases heq : e.id = id
          · subst heq
            rw [Ledger.apply, Function.update_self] at hchain
            simpa [turns, hknown] using hchain
          · rw [Ledger.apply, Function.update_of_ne (Ne.symm heq)] at hchain
            simpa [turns, heq] using hchain
      | animate e => exact hchain

end Ledger
end AppearanceSync
