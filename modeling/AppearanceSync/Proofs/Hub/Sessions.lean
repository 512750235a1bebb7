import AppearanceSync.Proofs.Hub.Delivery

/-!
# A session from its beginning to its end

What a session is sent is said here in terms of the run alone: the point at which
it connects, and the first move after that by which it is ended.
-/

namespace AppearanceSync

/-- The move ends the session, if there is one of this number. -/
def Move.ends (session : SessionId) : Move → Bool
  | .disconnect ended => ended = session
  | .close ended => ended = session
  | _ => false

namespace Hub

variable {h : Hub} {session : SessionId}

/-! ## How far a session is served -/

theorem isSome_find?_step {move : Move} (hf : h.Fair) (hs : h.Steady)
    (hknown : (h.broadcaster.find? session).isSome) :
    ((h.step move).broadcaster.find? session).isSome := by
  have hmodify (other : SessionId) (change : Session → Session)
      (hid : ∀ s, (change s).id = s.id) :
      ((h.broadcaster.modify other change).find? session).isSome := by
    rwa [Broadcaster.isSome_find?_modify _ _ _ _ hid]
  cases move with
  | intern d => exact hknown
  | animate target d params => exact hknown
  | lookup id => exact hknown
  | copy i => exact hknown
  | part i k => exact hknown
  | drop i =>
      rw [step]
      split <;> exact hknown
  | connect rank =>
      simp only [step, Broadcaster.connectWith, find?_connect hf.find?_nextId]
      split
      · rfl
      · exact hknown
  | disconnect other => exact hmodify other _ fun _ => rfl
  | close other => exact hmodify other _ fun _ => rfl
  | receive other =>
      simp only [step, Broadcaster.receive]
      split
      · exact hknown
      · split
        · exact hmodify other _ fun _ => rfl
        · exact hknown
  | flush =>
      rw [hs.step_flush, Broadcaster.find?_carryAll, Option.isSome_map]
      exact hknown

theorem lookup_ended_step (h : Hub) (move : Move) (session : SessionId) :
    (h.step move).ended.lookup session =
      (h.ended.lookup session).or
        (if move.ends session ∧ (h.broadcaster.find? session).isSome then some h.delivered
        else none) := by
  have hsame : (h.ended.lookup session).or none = h.ended.lookup session := Option.or_none
  cases move with
  | disconnect other =>
      change (h.markEnded other).ended.lookup session = _
      rw [lookup_markEnded]
      simp [Move.ends]
  | close other =>
      change (h.markEnded other).ended.lookup session = _
      rw [lookup_markEnded]
      simp [Move.ends]
  | drop i =>
      rw [step]
      split <;> simp [Move.ends]
  | _ => simp [Move.ends, step, acquire, retain]

/-- A session is served until the first move that ends it. -/
theorem reach_foldl {moves : List Move} (hf : h.Fair) (hs : h.Steady)
    (hknown : (h.broadcaster.find? session).isSome) (hopen : h.ended.lookup session = none) :
    (moves.foldl Hub.step h).reach session =
      ((moves.takeWhile fun move => !move.ends session).foldl Hub.step h).delivered := by
  have hstays (moves : List Move) (h : Hub) {n : ℕ} (hn : h.ended.lookup session = some n) :
      (moves.foldl Hub.step h).ended.lookup session = some n := by
    induction moves generalizing h with
    | nil => exact hn
    | cons move moves ih =>
        refine ih (h.step move) ?_
        rw [lookup_ended_step, hn, Option.some_or]
  induction moves generalizing h with
  | nil => simp [reach, hopen]
  | cons move moves ih =>
      have hstep := lookup_ended_step h move session
      rw [hopen, Option.none_or] at hstep
      by_cases hends : move.ends session = true
      · rw [if_pos ⟨hends, hknown⟩] at hstep
        rw [List.takeWhile_cons_of_neg (by simp [hends]), reach, List.foldl_cons,
          hstays moves _ hstep]
        rfl
      · rw [if_neg fun h => hends h.1] at hstep
        rw [List.takeWhile_cons_of_pos (by simp [hends])]
        exact ih (hf.step hs move) (hs.step move) (isSome_find?_step hf hs hknown) hstep

/-! ## A session from its beginning -/

theorem history_prefix_step (h : Hub) (move : Move) : h.history <+: (h.step move).history := by
  cases move with
  | drop i =>
      rw [step]
      split
      · exact List.prefix_append _ _
      · exact List.prefix_rfl
  | disconnect session =>
      rw [step, markEnded]
      split <;> exact List.prefix_rfl
  | close session =>
      rw [step, markEnded]
      split <;> exact List.prefix_rfl
  | receive session => exact List.prefix_rfl
  | _ => exact List.prefix_append _ _

theorem history_prefix_foldl (h : Hub) (moves : List Move) :
    h.history <+: (moves.foldl Hub.step h).history := by
  induction moves generalizing h with
  | nil => exact List.prefix_rfl
  | cons move moves ih => exact (history_prefix_step h move).trans (ih (h.step move))

/-- What is registered when a session connects is in its table, whatever the order
in which it is captured. -/
theorem history_connect (hs : h.Steady) (rank : ContentId → ℕ) :
    ∃ held r, (h.step (.connect rank)).history =
        h.history ++ [(.join h.broadcaster.nextId held, r)] ∧
      r.find? = h.registry.find? ∧ r.snapshot = h.registry.snapshot := by
  let captured := h.registry.live.mergeSort fun a b => rank a.id ≤ rank b.id
  let r := h.registry.joinWith h.broadcaster.nextId captured
  have hfind : r.find? = h.registry.find? := by
    rw [← Registry.find?_foldl_retain h.registry captured]
    funext id
    have hjoin : r = (captured.foldl Registry.retain h.registry).announce
        (.join h.broadcaster.nextId captured) := if_pos hs.balanced.isOpen
    rw [hjoin, Registry.find?_announce]
  refine ⟨captured, r, ?_, hfind, Registry.snapshot_eq_of_find?_eq hs.balanced.sound.named hfind⟩
  simp only [step, Broadcaster.connectWith, Registry.journal_joinDeeds _ hs.balanced.isOpen]
  rfl

/-- The stream of a session that connects at some point of a run. -/
theorem stream_of_connect {entries : List (OutboundEvent × Registry)} (hf : h.Fair) (hs : h.Steady)
    {rank : ContentId → ℕ} (hinit : (h.step (.connect rank)).history <+: entries) (n : ℕ) :
    (stream h.broadcaster.nextId (entries.take n)).map Prod.fst =
      if h.history.length < n then
        .snapshot h.registry.snapshot ::
          Registry.messagesOf ((entries.take n).drop (h.history.length + 1))
      else [] := by
  obtain ⟨held, r, hhistory, -, hsnapshot⟩ := history_connect hs rank
  obtain ⟨rest, hrest⟩ := hinit
  rw [hhistory, List.append_assoc, List.singleton_append] at hrest
  have hbefore := (hf.unknown _ hf.find?_nextId).1
  rw [← hrest]
  by_cases hn : h.history.length < n
  · obtain ⟨k, rfl⟩ := Nat.exists_eq_add_of_lt hn
    have htake : (h.history ++ (.join h.broadcaster.nextId held, r) :: rest).take
        (h.history.length + k + 1) =
          h.history ++ (.join h.broadcaster.nextId held, r) :: rest.take k := by
      rw [Nat.add_assoc, List.take_length_add_append, List.take_succ_cons]
    have hdrop : (h.history ++ (.join h.broadcaster.nextId held, r) :: rest.take k).drop
        (h.history.length + 1) = rest.take k := by
      rw [List.drop_length_add_append, List.drop_succ_cons, List.drop_zero]
    rw [if_pos hn, htake, hdrop, stream_append, hbefore.stream_eq_nil, if_pos rfl, stream,
      if_pos rfl, List.map_cons, map_fst_messagesWith, hsnapshot]
  · have hle : n ≤ h.history.length := Nat.le_of_not_lt hn
    have hpart : NotJoining h.broadcaster.nextId (h.history.take n) :=
      fun e he => hbefore e (List.mem_of_mem_take he)
    rw [if_neg hn, List.take_append_of_le_length hle, hpart.stream_eq_nil, List.map_nil]

/-- In every run, a session is sent nothing before its joining has been delivered.
From then on it has been sent one table, which shows what was registered when it
connected, and each message that was announced after it connected and delivered
before it was ended, once and in order.  A flush always delivers one announcement
after the other until none waits, not even of those that it has caused itself. -/
theorem delivery_exactlyOnce
    (maxDepth : ℕ) (before : List Move) (rank : ContentId → ℕ) (after : List Move) :
    let joining := run maxDepth before
    let session := joining.broadcaster.nextId
    let ending := run maxDepth
      (before ++ .connect rank :: after.takeWhile fun move => !move.ends session)
    let h := run maxDepth (before ++ .connect rank :: after)
    let flushed := h.step .flush
    h.sentTo session =
      (if joining.history.length < ending.delivered then
        .snapshot joining.registry.snapshot ::
          Registry.messagesOf
            ((h.history.take ending.delivered).drop (joining.history.length + 1))
      else []) ∧
    h.registry.outbox.waiting.toList = (h.history.drop h.delivered).map Prod.fst ∧
    flushed.registry.outbox.waiting = #[] ∧
    flushed.delivered = flushed.history.length ∧
    ∃ n, flushed.delivered = h.delivered + n ∧
      h.broadcaster.Drains h.registry flushed.broadcaster flushed.registry n := by
  intro joining session ending h flushed
  have hs : joining.Steady := steady_run maxDepth before
  have hf : joining.Fair := fair_run maxDepth before
  have hrun : h = after.foldl Hub.step (joining.step (.connect rank)) :=
    run_append maxDepth before (.connect rank :: after)
  have hending : ending = (after.takeWhile fun move => !move.ends session).foldl Hub.step
      (joining.step (.connect rank)) :=
    run_append maxDepth before (.connect rank :: after.takeWhile fun move => !move.ends session)
  have hreach : h.reach session = ending.delivered := by
    have hfind := find?_connect hf.find?_nextId session
    rw [if_pos rfl] at hfind
    have hknown : ((joining.step (.connect rank)).broadcaster.find? session).isSome := by
      simp only [step, Broadcaster.connectWith, hfind, Option.isSome_some]
    have hopen : (joining.step (.connect rank)).ended.lookup session = none :=
      (hf.unknown _ hf.find?_nextId).2.2
    rw [hrun, hending]
    exact reach_foldl (hf.step hs _) (hs.step _) hknown hopen
  have hinit : (joining.step (.connect rank)).history <+: h.history := by
    rw [hrun]
    exact history_prefix_foldl _ after
  have hsteady : h.Steady := steady_run maxDepth _
  have hflush : flushed.Steady := hsteady.flush
  have hdelivered : flushed.delivered = flushed.history.length := by
    change (h.step .flush).delivered = (h.step .flush).history.length
    rw [hsteady.step_flush]
  have hnone : flushed.registry.outbox.waiting = #[] := by
    have hwaiting := hflush.waiting
    rw [hdelivered, List.drop_length, List.map_nil] at hwaiting
    exact Array.toList_eq_nil_iff.mp hwaiting
  refine ⟨?_, hsteady.waiting, hnone, hdelivered, _, rfl, Broadcaster.drains_flush hnone⟩
  rw [(fair_run maxDepth _).sentTo_eq, streamOf, hreach]
  exact stream_of_connect hf hs hinit ending.delivered

end Hub
end AppearanceSync
