import AppearanceSync.Broadcaster
import Mathlib.Data.List.Basic

/-!
# What one session hears

Delivering announcements does two things that do not depend on one another: each
session hears them, and the registry gets back the handles that they held.  This
module takes the two apart and follows a single session.
-/

namespace AppearanceSync

namespace Session

/-- The session after an announcement has been delivered. -/
def hear (s : Session) : OutboundEvent → Session
  | .message m => if s.stage = .active then s.send m else s
  | .join session held =>
    if s.id = session ∧ s.stage = .joining then s.send (.snapshot (Registry.tableOf held)) else s

@[simp] theorem id_send (s : Session) (m : Message) : (s.send m).id = s.id := by
  unfold send
  split <;> rfl

@[simp] theorem id_hear (s : Session) (e : OutboundEvent) : (s.hear e).id = s.id := by
  cases e with
  | message m =>
      rw [hear]
      split <;> simp
  | join session held =>
      rw [hear]
      split <;> simp

@[simp] theorem id_foldl_hear (s : Session) (events : List OutboundEvent) :
    (events.foldl hear s).id = s.id := by
  induction events generalizing s with
  | nil => rfl
  | cons e events ih => rw [List.foldl_cons, ih, id_hear]

/-- A session that is gone or whose inbox is closed takes nothing in, and stays so. -/
def Ended (s : Session) : Prop := s.stage = .gone ∨ s.inbox.isOpen = false

theorem Ended.send {s : Session} (h : s.Ended) (hstage : s.stage ≠ .gone) (m : Message) :
    (s.send m).Ended ∧ (s.send m).inbox = s.inbox := by
  have hclosed : s.inbox.isOpen = false := h.resolve_left hstage
  simp [Session.send, hclosed, Ended]

theorem Ended.hear {s : Session} (h : s.Ended) (e : OutboundEvent) :
    (s.hear e).Ended ∧ (s.hear e).inbox = s.inbox := by
  cases e with
  | message m =>
      rw [Session.hear]
      split
      · next hactive => exact h.send (by simp [hactive]) m
      · exact ⟨h, rfl⟩
  | join session held =>
      rw [Session.hear]
      split
      · next hjoining => exact h.send (by simp [hjoining.2]) _
      · exact ⟨h, rfl⟩

end Session

namespace Broadcaster

/-- Every session hears an announcement. -/
def carry (b : Broadcaster) (e : OutboundEvent) : Broadcaster := ⟨b.sessions.map (·.hear e)⟩

/-- Every session hears these announcements in order. -/
def carryAll (b : Broadcaster) (events : List OutboundEvent) : Broadcaster :=
  events.foldl carry b

variable {b : Broadcaster} {r : Registry} {id other : SessionId}

/-! ## Sessions by their ids -/

theorem find?_map (b : Broadcaster) (f : Session → Session) (hf : ∀ s, (f s).id = s.id)
    (id : SessionId) :
    Broadcaster.find? ⟨b.sessions.map f⟩ id = (b.find? id).map f := by
  rw [find?, find?, List.find?_map]
  congr 2
  funext s
  simp [hf]

theorem find?_carryAll (b : Broadcaster) (events : List OutboundEvent) (id : SessionId) :
    (b.carryAll events).find? id = (b.find? id).map fun s => events.foldl Session.hear s := by
  induction events generalizing b with
  | nil => simp [carryAll]
  | cons e events ih =>
      rw [carryAll, List.foldl_cons, ← carryAll, ih, carry, find?_map b _ fun s => s.id_hear e,
        Option.map_map]
      rfl

theorem id_of_find? {s : Session} (h : b.find? id = some s) : s.id = id := by
  simpa using List.find?_some h

theorem find?_modify (b : Broadcaster) (id other : SessionId) (change : Session → Session)
    (hid : ∀ s, (change s).id = s.id) :
    (b.modify id change).find? other =
      if other = id then (b.find? other).map change else b.find? other := by
  have hsame (s : Session) : (if s.id = id then change s else s).id = s.id := by
    split
    · exact hid s
    · rfl
  rw [modify, find?_map b _ hsame]
  cases hfound : b.find? other with
  | none => simp
  | some s =>
      rw [Option.map_some, id_of_find? hfound]
      split <;> rfl

theorem isSome_find?_modify (b : Broadcaster) (id other : SessionId) (change : Session → Session)
    (hid : ∀ s, (change s).id = s.id) :
    ((b.modify id change).find? other).isSome = (b.find? other).isSome := by
  rw [find?_modify b id other change hid]
  split
  · rw [Option.isSome_map]
  · rfl

theorem exists_of_mem_carryAll {events : List OutboundEvent} {s : Session}
    (h : s ∈ (b.carryAll events).sessions) : ∃ t ∈ b.sessions, s.id = t.id := by
  induction events generalizing b with
  | nil => exact ⟨s, h, rfl⟩
  | cons e events ih =>
      obtain ⟨t, ht, hid⟩ := ih h
      obtain ⟨u, hu, rfl⟩ := List.mem_map.mp ht
      exact ⟨u, hu, hid.trans (u.id_hear e)⟩

theorem length_carryAll (b : Broadcaster) (events : List OutboundEvent) :
    (b.carryAll events).sessions.length = b.sessions.length := by
  induction events generalizing b with
  | nil => rfl
  | cons e events ih =>
      rw [carryAll, List.foldl_cons, ← carryAll, ih, carry, List.length_map]

/-! ## Delivery taken apart -/

theorem deliver_eq (b : Broadcaster) (r : Registry) (e : OutboundEvent) :
    b.deliver r e = (b.carry e, r.releaseAll (Registry.heldBy [e])) := by
  cases e with
  | message m => rfl
  | join session held =>
      simp only [deliver, activate, modify, carry, Registry.heldBy, List.flatMap_cons,
        List.flatMap_nil, List.append_nil]
      congr 2
      refine List.map_congr_left fun s _ => ?_
      rw [Session.hear]
      split_ifs <;> simp_all

theorem releaseAll_append (r : Registry) (xs ys : List Handle) :
    r.releaseAll (xs ++ ys) = (r.releaseAll xs).releaseAll ys := List.foldl_append

theorem deliverAll_eq (b : Broadcaster) (r : Registry) (events : List OutboundEvent) :
    b.deliverAll r events = (b.carryAll events, r.releaseAll (Registry.heldBy events)) := by
  induction events generalizing b r with
  | nil => rfl
  | cons e events ih =>
      have hheld : Registry.heldBy (e :: events) =
          Registry.heldBy [e] ++ Registry.heldBy events := by
        simp [Registry.heldBy]
      rw [hheld, releaseAll_append, carryAll, List.foldl_cons, ← carryAll]
      change deliverAll (b.deliver r e).1 (b.deliver r e).2 events = _
      rw [ih, deliver_eq]

end Broadcaster
end AppearanceSync
