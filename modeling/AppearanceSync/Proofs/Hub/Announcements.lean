import AppearanceSync.Proofs.Hub.Basic

/-!
# The stream of announcements

Whatever callers and clients do, the announcements of a registry can be followed
without knowing anything else: each one makes sense after those before it.
-/

namespace AppearanceSync
namespace Hub

open Registry (messagesOf standard)

/-- In every run, replaying any part of the announced messages from the beginning
gives a ledger that is closed under references and permits the message that
follows.  The turns of every id alternate, beginning with its addition; after
the run the ledger has exactly what is registered; and the plain appearance is
never removed.  The record is that of the registry's own queue: what has been
announced and not yet delivered is what waits there, in this order. -/
theorem announcements_wellFormed
    (maxDepth : ℕ) (moves : List Move) :
    let h := run maxDepth moves
    (∀ before m after, h.published = before ++ m :: after →
      (Ledger.empty.replay before).Permits m) ∧
    (∀ before, before <+: h.published → (Ledger.empty.replay before).Closed) ∧
    (∀ id, List.IsChain (· ≠ ·) (false :: Ledger.turns id h.published)) ∧
    (∀ id, (Ledger.empty.replay h.published id).isSome = h.registry.contains id) ∧
    .removed ⟨standard.id⟩ ∉ h.published ∧
    h.delivered ≤ h.history.length ∧
    h.registry.outbox.waiting.toList = (h.history.drop h.delivered).map Prod.fst := by
  intro h
  have hsteady : h.Steady := steady_run maxDepth moves
  have hchronicle := hsteady.chronicle
  have horderly : Ledger.empty.Orderly h.published := hchronicle.orderly
  refine ⟨?_, ?_, ?_, ?_, hchronicle.standard_not_removed, hsteady.reached, hsteady.waiting⟩
  · intro before m after hsplit
    rw [hsplit] at horderly
    exact horderly.split.2.1
  · rintro before ⟨after, hsplit⟩
    rw [← hsplit] at horderly
    exact Ledger.closed_empty.replay horderly.split.1
  · intro id
    exact horderly.isChain_turns id
  · intro id
    rw [published, hchronicle.replay_eq, Registry.isSome_ledger]

end Hub
end AppearanceSync
