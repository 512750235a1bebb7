import AppearanceSync.Proofs.Broadcaster

/-!
# Emptying the queue one announcement at a time

Giving up the handles of a joining session can announce more, and what is announced
goes behind everything that waits already.  It is therefore the same whether
announcements are taken one after the other until none waits, or in rounds of all
that waits at the beginning of a round.
-/

namespace AppearanceSync

namespace Registry

/-- The registry with these announcements in front of what waits. -/
def queueFirst (r : Registry) (events : List OutboundEvent) : Registry :=
  { r with outbox := { r.outbox with waiting := events.toArray ++ r.outbox.waiting } }

variable (r : Registry) (events : List OutboundEvent)

theorem queueFirst_takeAll : r.takeAll.queueFirst r.outbox.waiting.toList = r := by
  simp [queueFirst, takeAll]

theorem takeFirst_queueFirst (e : OutboundEvent) :
    (r.queueFirst (e :: events)).takeFirst = (r.queueFirst events, some e) := by
  have hrest : ((e :: events).toArray ++ r.outbox.waiting).extract 1 =
      events.toArray ++ r.outbox.waiting := by
    apply Array.toList_inj.mp
    simp [List.take_of_length_le]
  have hfirst : ((e :: events).toArray ++ r.outbox.waiting)[0]? = some e := by
    rw [← Array.getElem?_toList]
    simp
  simp only [takeFirst, queueFirst, hrest, hfirst]

/-! ## Handles that are given up with announcements in front -/

theorem remove_queueFirst (id : ContentId) :
    (r.queueFirst events).remove id = (r.remove id).queueFirst events := by
  by_cases hopen : r.outbox.isOpen = true
  · simp [remove, publish, announce, queueFirst, hopen]
  · simp [remove, publish, announce, queueFirst, hopen]

theorem letGo_queueFirst (serial : Serial) (id : ContentId) :
    (r.queueFirst events).letGo serial id =
      ((r.letGo serial id).1.queueFirst events, (r.letGo serial id).2) := by
  have hentries : (r.queueFirst events).entries = r.entries := rfl
  rw [letGo, letGo, hentries]
  cases r.entries[id]? with
  | none => rfl
  | some e =>
      by_cases hserial : e.handle.key ≠ serial
      · simp [hserial]
      · by_cases hlast : e.holders ≤ 1
        · simp [hserial, hlast, remove_queueFirst]
        · simp [hserial, hlast, queueFirst]

mutual

theorem release_queueFirst (r : Registry) (events : List OutboundEvent) :
    ∀ a : Handle, (r.queueFirst events).release a = (r.release a).queueFirst events
  | .mk serial id _ overlays underlays => by
      rw [release, release, letGo_queueFirst]
      dsimp only
      split
      · rw [releaseSlots_queueFirst, releaseSlots_queueFirst]
      · rfl

theorem releaseSlots_queueFirst (r : Registry) (events : List OutboundEvent) :
    ∀ slots : List (Slot Serial),
      (r.queueFirst events).releaseSlots slots = (r.releaseSlots slots).queueFirst events
  | [] => rfl
  | slot :: slots => by
      rw [releaseSlots, releaseSlots, releaseSlot_queueFirst, releaseSlots_queueFirst]

theorem releaseSlot_queueFirst (r : Registry) (events : List OutboundEvent) :
    ∀ slot : Slot Serial,
      (r.queueFirst events).releaseSlot slot = (r.releaseSlot slot).queueFirst events
  | .pending _ => rfl
  | .filled a => release_queueFirst r events a

end

theorem releaseAll_queueFirst (handles : List Handle) :
    (r.queueFirst events).releaseAll handles = (r.releaseAll handles).queueFirst events := by
  induction handles generalizing r with
  | nil => rfl
  | cons a handles ih =>
      have hrest := ih (r.release a)
      rwa [← release_queueFirst] at hrest

end Registry

namespace Broadcaster

/-- Announcements are taken and delivered one after the other until none waits, and
there were this many. -/
inductive Drains : Broadcaster → Registry → Broadcaster → Registry → ℕ → Prop
  | done {b r} (hnone : r.outbox.waiting = #[]) : Drains b r b r 0
  | next {b r b' r' e n} (hfirst : r.takeFirst.2 = some e)
      (rest : Drains (b.deliver r.takeFirst.1 e).1 (b.deliver r.takeFirst.1 e).2 b' r' n) :
      Drains b r b' r' (n + 1)

variable {b b' : Broadcaster} {r r' : Registry} {n : ℕ}

/-- Announcements in front can be delivered before what waits behind them. -/
theorem Drains.queueFirst {events : List OutboundEvent}
    (h : Drains (b.deliverAll r events).1 (b.deliverAll r events).2 b' r' n) :
    Drains b (r.queueFirst events) b' r' (n + events.length) := by
  induction events generalizing b r with
  | nil =>
      have hsame : r.queueFirst [] = r := by simp [Registry.queueFirst]
      rwa [hsame]
  | cons e events ih =>
      have hfirst := r.takeFirst_queueFirst events e
      -- what this announcement makes the registry announce goes behind the others
      have hdeliver : b.deliver (r.queueFirst events) e =
          ((b.deliver r e).1, (b.deliver r e).2.queueFirst events) := by
        rw [deliver_eq, deliver_eq, Registry.releaseAll_queueFirst]
      refine .next (e := e) (by rw [hfirst]) ?_
      rw [hfirst, hdeliver]
      exact ih h

/-- A round may come first. -/
theorem Drains.round (h : Drains (b.round r).1 (b.round r).2.1 b' r' n) :
    Drains b r b' r' (n + (b.round r).2.2) := by
  have hdrains := Drains.queueFirst h
  rwa [Registry.queueFirst_takeAll, Array.length_toList] at hdrains

/-- A flush that leaves nothing waiting drains the queue. -/
theorem drains_flush (hnone : (b.flush r).2.1.outbox.waiting = #[]) :
    Drains b r (b.flush r).1 (b.flush r).2.1 (b.flush r).2.2 := by
  have hsecond := Drains.round (.done hnone)
  rw [Nat.zero_add] at hsecond
  have hfirst := hsecond.round
  rwa [Nat.add_comm] at hfirst

end Broadcaster
end AppearanceSync
