import AppearanceSync.Proofs.Hub.Stream

/-!
# Delivery to sessions

A session is sent its stream of the history, as far as the history had been
delivered when somebody ended the session, and as far as it has been delivered at
all if nobody did.
-/

namespace AppearanceSync
namespace Hub

/-- How much of the history counts for a session. -/
def reach (h : Hub) (session : SessionId) : ℕ := (h.ended.lookup session).getD h.delivered

/-- The session's stream of the part of the history that counts for it. -/
def streamOf (h : Hub) (session : SessionId) : List (Message × Registry) :=
  stream session (h.history.take (h.reach session))

/-- What a session's client has taken from its inbox. -/
def taken (h : Hub) (session : SessionId) : List Message :=
  h.received.filterMap fun e => if e.1 = session then some e.2 else none

/-- Everything that a session was sent, whether its client has taken it or not. -/
def sentTo (h : Hub) (session : SessionId) : List Message :=
  h.taken session ++ ((h.broadcaster.find? session).map (·.inbox.waiting.toList)).getD []

/-- A session that is known, and that somebody has ended when this much was delivered. -/
def Attends (h : Hub) (s : Session) : Option ℕ → Prop
  | none => s.Served (h.taken s.id) (h.history.take h.delivered)
  | some n => s.Ended ∧ n ≤ h.delivered ∧
      h.taken s.id ++ s.inbox.waiting.toList = (stream s.id (h.history.take n)).map Prod.fst

/-- Every known session joins in the history and has been sent what it should have
been sent, and nothing has happened yet to a session that is not known. -/
structure Fair (h : Hub) : Prop where
  known : ∀ session s, h.broadcaster.find? session = some s →
    h.Attends s (h.ended.lookup session)
  joins : ∀ session, (h.broadcaster.find? session).isSome → ¬NotJoining session h.history
  unknown : ∀ session, h.broadcaster.find? session = none →
    NotJoining session h.history ∧ h.taken session = [] ∧ h.ended.lookup session = none
  numbered : ∀ s ∈ h.broadcaster.sessions, s.id.number ≤ h.broadcaster.sessions.length

variable {h h' : Hub} {session : SessionId} {s : Session}

theorem Fair.sentTo_eq (hf : h.Fair) (session : SessionId) :
    h.sentTo session = (h.streamOf session).map Prod.fst := by
  rw [sentTo, streamOf, reach]
  cases hfound : h.broadcaster.find? session with
  | none =>
      obtain ⟨hjoining, htaken, hended⟩ := hf.unknown session hfound
      have hpart : NotJoining session (h.history.take h.delivered) :=
        fun e he => hjoining e (List.mem_of_mem_take he)
      rw [hended, htaken, Option.getD_none, hpart.stream_eq_nil]
      rfl
  | some s =>
      obtain rfl := Broadcaster.id_of_find? hfound
      have hknown := hf.known s.id s hfound
      cases hended : h.ended.lookup s.id with
      | none =>
          rw [hended] at hknown
          exact hknown.sent
      | some n =>
          rw [hended] at hknown
          exact hknown.2.2

theorem fair_start (maxDepth : ℕ) : (start maxDepth).Fair := by
  constructor
  · intro session s hfound
    simp [start, Broadcaster.empty, Broadcaster.find?] at hfound
  · intro session hfound
    simp [start, Broadcaster.empty, Broadcaster.find?] at hfound
  · intro session _
    refine ⟨?_, rfl, rfl⟩
    exact notJoining_of_messages (Registry.journal_of_quiet _ (by simp [Deed.Quiet])) session
  · intro s hs
    exact absurd hs List.not_mem_nil

/-! ## Moves of callers -/

/-- What was delivered to a session stays true while the history grows. -/
theorem Attends.of_history_append {n : Option ℕ} {more : List (OutboundEvent × Registry)}
    (ha : h.Attends s n) (hs : h.Steady) (hhistory : h'.history = h.history ++ more)
    (hdelivered : h'.delivered = h.delivered) (hreceived : h'.received = h.received) :
    h'.Attends s n := by
  have htaken : h'.taken s.id = h.taken s.id := by
    rw [taken, taken, hreceived]
  have htake (n : ℕ) (hn : n ≤ h.delivered) : h'.history.take n = h.history.take n := by
    rw [hhistory, List.take_append_of_le_length (hn.trans hs.reached)]
  cases n with
  | none =>
      rw [Attends, htaken, hdelivered, htake h.delivered le_rfl]
      exact ha
  | some n =>
      obtain ⟨hended, hn, hsent⟩ := ha
      rw [Attends, htaken, hdelivered, htake n hn]
      exact ⟨hended, hn, hsent⟩

theorem Fair.of_history_append {more : List (OutboundEvent × Registry)} (hf : h.Fair)
    (hs : h.Steady) (hmore : ∀ e ∈ more, ∃ m, e.1 = .message m)
    (hbroadcaster : h'.broadcaster = h.broadcaster) (hhistory : h'.history = h.history ++ more)
    (hdelivered : h'.delivered = h.delivered) (hreceived : h'.received = h.received)
    (hended : h'.ended = h.ended) : h'.Fair := by
  constructor
  · intro session s hfound
    rw [hbroadcaster] at hfound
    rw [hended]
    exact (hf.known session s hfound).of_history_append hs hhistory hdelivered hreceived
  · intro session hfound hjoining
    rw [hbroadcaster] at hfound
    rw [hhistory] at hjoining
    exact hf.joins session hfound hjoining.of_append
  · intro session hfound
    rw [hbroadcaster] at hfound
    obtain ⟨hjoining, hnone, hlookup⟩ := hf.unknown session hfound
    rw [hhistory, taken, hreceived, hended]
    exact ⟨hjoining.append (notJoining_of_messages hmore session), hnone, hlookup⟩
  · rw [hbroadcaster]
    exact hf.numbered

theorem Fair.acquire {ds : List Deed} (hf : h.Fair) (hs : h.Steady) (hquiet : ∀ d ∈ ds, d.Quiet)
    (registry : Registry) (more : List Handle) : (h.acquire ds registry more).Fair :=
  hf.of_history_append hs (Registry.journal_of_quiet _ hquiet) rfl rfl rfl rfl rfl

theorem Fair.drop (hf : h.Fair) (hs : h.Steady) (i : ℕ) : (h.step (.drop i)).Fair := by
  rw [step]
  split
  · next a _ =>
      have hquiet := Deed.quiet_of_tacit (Registry.tacit_releaseDeeds h.registry a)
      exact hf.of_history_append hs (Registry.journal_of_quiet _ hquiet) rfl rfl rfl rfl rfl
  · exact hf

/-! ## Connecting -/

/-- The number of a new session is new. -/
theorem Fair.find?_nextId (hf : h.Fair) : h.broadcaster.find? h.broadcaster.nextId = none := by
  refine List.find?_eq_none.mpr fun s hs hid => ?_
  have hle := hf.numbered s hs
  rw [of_decide_eq_true hid, Broadcaster.nextId] at hle
  exact absurd hle (Nat.not_succ_le_self _)

theorem find?_connect {b : Broadcaster} (hnew : b.find? b.nextId = none) (session : SessionId) :
    Broadcaster.find? ⟨b.sessions ++ [.connecting b.nextId]⟩ session =
      if session = b.nextId then some (.connecting b.nextId) else b.find? session := by
  rw [Broadcaster.find?, List.find?_append, ← Broadcaster.find?]
  by_cases heq : session = b.nextId
  · rw [if_pos heq, heq, hnew]
    simp [Session.connecting]
  · have hlast : [Session.connecting b.nextId].find? (fun s => s.id = session) = none := by
      simpa [Session.connecting] using Ne.symm heq
    rw [if_neg heq, hlast, Option.or_none]

theorem Fair.connect (hf : h.Fair) (hs : h.Steady) (rank : ContentId → ℕ) :
    (h.step (.connect rank)).Fair := by
  have hnew := hf.find?_nextId
  obtain ⟨hjoining, htaken, hlookup⟩ := hf.unknown _ hnew
  have hfind := find?_connect hnew
  simp only [step, Broadcaster.connectWith, Registry.journal_joinDeeds _ hs.balanced.isOpen]
  constructor
  · intro session s hfound
    rw [hfind] at hfound
    split at hfound
    · next heq =>
        obtain rfl := Option.some.inj hfound
        rw [heq, hlookup]
        refine Attends.of_history_append (h := h) ?_ hs rfl rfl rfl
        have hpart : NotJoining h.broadcaster.nextId (h.history.take h.delivered) :=
          fun e he => hjoining e (List.mem_of_mem_take he)
        refine ⟨rfl, ?_, Or.inl ⟨rfl, hpart.stream_eq_nil⟩⟩
        simp [Session.connecting, htaken, hpart.stream_eq_nil, Inbox.empty]
    · exact (hf.known session s hfound).of_history_append hs rfl rfl rfl
  · intro session hfound hnever
    rw [hfind] at hfound
    split at hfound
    · next heq =>
        subst heq
        exact hnever _ (List.mem_append_right _ (List.mem_singleton.mpr rfl)) _ rfl
    · exact hf.joins session hfound hnever.of_append
  · intro session hfound
    rw [hfind] at hfound
    split at hfound
    · simp at hfound
    · next hne =>
        obtain ⟨hbefore, htaken, hlookup⟩ := hf.unknown session hfound
        refine ⟨hbefore.append ?_, htaken, hlookup⟩
        intro e he held heq
        rw [List.mem_singleton.mp he] at heq
        exact hne (OutboundEvent.join.inj heq).1.symm
  · intro s hmem
    rw [List.length_append]
    rcases List.mem_append.mp hmem with hmem | hmem
    · exact (hf.numbered s hmem).trans (Nat.le_succ _)
    · rw [List.mem_singleton.mp hmem]
      exact le_rfl

/-! ## The end of a session -/

theorem numbered_modify {b : Broadcaster} {change : Session → Session}
    (hid : ∀ s, (change s).id = s.id)
    (hnumbered : ∀ s ∈ b.sessions, s.id.number ≤ b.sessions.length) :
    ∀ s ∈ (b.modify session change).sessions,
      s.id.number ≤ (b.modify session change).sessions.length := by
  intro s hs
  obtain ⟨t, ht, rfl⟩ := List.mem_map.mp hs
  have hsame : (if t.id = session then change t else t).id = t.id := by
    split
    · exact hid t
    · rfl
  rw [hsame, Broadcaster.modify, List.length_map]
  exact hnumbered t ht

theorem markEnded_eq (h : Hub) (session : SessionId) :
    h.markEnded session = { h with ended := (h.markEnded session).ended } := by
  rw [markEnded]
  split <;> rfl

theorem lookup_markEnded (h : Hub) (other session : SessionId) :
    (h.markEnded other).ended.lookup session =
      (h.ended.lookup session).or
        (if other = session ∧ (h.broadcaster.find? session).isSome then some h.delivered
        else none) := by
  rw [markEnded]
  cases hfound : h.broadcaster.find? other with
  | none =>
      have hneg : ¬(other = session ∧ (h.broadcaster.find? session).isSome) := by
        rintro ⟨rfl, hknown⟩
        simp [hfound] at hknown
      rw [if_neg hneg, Option.or_none]
  | some s =>
      simp only [List.lookup_append]
      by_cases heq : other = session
      · subst heq
        simp [hfound]
      · have hbeq : (session == other) = false := by simpa using Ne.symm heq
        simp [List.lookup_cons, heq, hbeq]

/-- Either side ends a session: what it was sent until then is all that it was sent. -/
theorem Fair.end {change : Session → Session} (hf : h.Fair) (session : SessionId)
    (hid : ∀ s, (change s).id = s.id)
    (hwaiting : ∀ s, (change s).inbox.waiting = s.inbox.waiting)
    (hchange : ∀ s, (change s).Ended) :
    ({ h.markEnded session with broadcaster := h.broadcaster.modify session change } : Hub).Fair := by
  have hfind := fun other => Broadcaster.find?_modify h.broadcaster session other change hid
  have hlookup := fun other => lookup_markEnded h session other
  rw [markEnded_eq]
  constructor
  · intro other s hother
    rw [hfind] at hother
    simp only [hlookup]
    split at hother
    · next heq =>
        obtain ⟨u, hu, rfl⟩ := Option.map_eq_some_iff.mp hother
        have hknown := hf.known other u hu
        have hsome : (h.broadcaster.find? other).isSome := by rw [hu, Option.isSome_some]
        rw [if_pos ⟨heq.symm, hsome⟩]
        cases hended : h.ended.lookup other with
        | none =>
            -- this is what ends the session
            rw [hended] at hknown
            rw [Option.none_or, Attends, hid, hwaiting]
            exact ⟨hchange u, le_rfl, hknown.sent⟩
        | some n =>
            rw [hended] at hknown
            rw [Option.some_or, Attends, hid, hwaiting]
            exact ⟨hchange u, hknown.2⟩
    · next hne =>
        rw [if_neg fun h => hne h.1.symm, Option.or_none]
        exact hf.known other s hother
  · intro other hother
    rw [Broadcaster.isSome_find?_modify _ _ _ _ hid] at hother
    exact hf.joins other hother
  · intro other hother
    have hnone : h.broadcaster.find? other = none := by
      rw [hfind] at hother
      split at hother
      · exact Option.map_eq_none_iff.mp hother
      · exact hother
    rw [hlookup, if_neg (by simp [hnone]), Option.or_none]
    exact hf.unknown other hnone
  · exact numbered_modify hid hf.numbered

/-! ## Receiving -/

/-- It does not matter whether the client has taken what it was sent. -/
theorem Attends.of_sent {s' : Session} {n : Option ℕ} (ha : h.Attends s n) (hid : s'.id = s.id)
    (hstage : s'.stage = s.stage) (hopen : s'.inbox.isOpen = s.inbox.isOpen)
    (hhistory : h'.history = h.history) (hdelivered : h'.delivered = h.delivered)
    (hsent : h'.taken s'.id ++ s'.inbox.waiting.toList =
      h.taken s.id ++ s.inbox.waiting.toList) : h'.Attends s' n := by
  cases n with
  | none =>
      rw [Attends, hhistory, hdelivered]
      refine ⟨hopen.trans ha.isOpen, ?_, ?_⟩
      · rw [hsent, hid]
        exact ha.sent
      · rw [hstage, hid]
        exact ha.stage
  | some n =>
      obtain ⟨hended, hn, htold⟩ := ha
      rw [Attends, hhistory, hdelivered, hsent, hid]
      refine ⟨?_, hn, htold⟩
      rwa [Session.Ended, hstage, hopen]

theorem Fair.receive (hf : h.Fair) (session : SessionId) : (h.step (.receive session)).Fair := by
  simp only [step, Broadcaster.receive]
  have hnothing : h.received ++ [].map (fun m => (session, m)) = h.received :=
    List.append_nil _
  cases hfound : h.broadcaster.find? session with
  | none =>
      simp only [Option.getD_none, hnothing]
      exact hf
  | some t =>
      obtain rfl := Broadcaster.id_of_find? hfound
      simp only
      split
      swap
      · simp only [Option.getD_none, hnothing]
        exact hf
      have hfind := fun other => Broadcaster.find?_modify h.broadcaster t.id other
        (fun s => { s with inbox := s.inbox.takeAll }) fun _ => rfl
      have htaken (other : SessionId) :
          (h.received ++ t.inbox.waiting.toList.map fun m => (t.id, m)).filterMap
              (fun e => if e.1 = other then some e.2 else none) =
            h.taken other ++ if other = t.id then t.inbox.waiting.toList else [] := by
        rw [List.filterMap_append, List.filterMap_map, taken]
        congr 1
        by_cases heq : other = t.id
        · simp [heq]
        · simp [heq, Ne.symm heq]
      simp only [Option.getD_some]
      constructor
      · intro other s hother
        rw [hfind] at hother
        split at hother
        · next heq =>
            -- what was in the inbox has moved to what the client has taken
            obtain ⟨u, hu, rfl⟩ := Option.map_eq_some_iff.mp hother
            subst heq
            obtain rfl : t = u := Option.some.inj (hfound.symm.trans hu)
            refine (hf.known t.id t hu).of_sent rfl rfl rfl rfl rfl ?_
            simp only [taken, htaken, if_true, Inbox.takeAll, List.append_nil]
        · next hne =>
            obtain rfl := Broadcaster.id_of_find? hother
            refine (hf.known s.id s hother).of_sent rfl rfl rfl rfl rfl ?_
            rw [taken, htaken, if_neg hne, List.append_nil]
      · intro other hother
        rw [Broadcaster.isSome_find?_modify] at hother
        · exact hf.joins other hother
        · exact fun _ => rfl
      · intro other hother
        rw [hfind] at hother
        split at hother
        · next heq =>
            rw [heq, hfound] at hother
            simp at hother
        · next hne =>
            rw [taken, htaken, if_neg hne, List.append_nil]
            exact hf.unknown other hother
      · exact numbered_modify (fun _ => rfl) hf.numbered

/-! ## Flushing -/

theorem Fair.flush (hf : h.Fair) (hs : h.Steady) : (h.step .flush).Fair := by
  have hcaptured := hs.flush.chronicle.captured
  have hsplit : h.history ++ h.registry.roundJournal =
      h.history.take h.delivered ++ (h.history.drop h.delivered ++ h.registry.roundJournal) := by
    rw [← List.append_assoc, List.take_append_drop]
  rw [hs.step_flush] at hcaptured ⊢
  constructor
  · intro session s hfound
    rw [Broadcaster.find?_carryAll] at hfound
    obtain ⟨t, ht, rfl⟩ := Option.map_eq_some_iff.mp hfound
    have hknown := hf.known session t ht
    cases hended : h.ended.lookup session with
    | none =>
        rw [hended] at hknown
        have hnew : Captured (h.history.drop h.delivered ++ h.registry.roundJournal) := by
          intro e he
          refine hcaptured e ?_
          rw [hsplit]
          exact List.mem_append_right _ he
        have hserved := hknown.foldl hnew
        rw [← hsplit] at hserved
        rw [Attends, Session.id_foldl_hear, List.take_length]
        exact hserved
    | some n =>
        rw [hended] at hknown
        obtain ⟨hgone, hn, hsent⟩ := hknown
        obtain ⟨hgone', hinbox⟩ := hgone.foldl
          ((h.history.drop h.delivered ++ h.registry.roundJournal).map Prod.fst)
        rw [Attends, Session.id_foldl_hear, hinbox, List.take_append_of_le_length (hn.trans hs.reached)]
        refine ⟨hgone', (hn.trans hs.reached).trans ?_, hsent⟩
        rw [List.length_append]
        exact Nat.le_add_right _ _
  · intro session hfound hjoining
    rw [Broadcaster.find?_carryAll, Option.isSome_map] at hfound
    exact hf.joins session hfound hjoining.of_append
  · intro session hfound
    rw [Broadcaster.find?_carryAll, Option.map_eq_none_iff] at hfound
    obtain ⟨hjoining, htaken, hlookup⟩ := hf.unknown session hfound
    exact ⟨hjoining.append (notJoining_of_messages (roundJournal_messages _) session),
      htaken, hlookup⟩
  · intro s hmem
    rw [Broadcaster.length_carryAll]
    obtain ⟨t, ht, hid⟩ := Broadcaster.exists_of_mem_carryAll hmem
    rw [hid]
    exact hf.numbered t ht

/-! ## Every run -/

theorem Fair.step (hf : h.Fair) (hs : h.Steady) (move : Move) : (h.step move).Fair := by
  cases move with
  | intern d => exact hf.acquire hs (Deed.quiet_of_tacit (Registry.tacit_internDeeds _ d)) _ _
  | animate target d params =>
      exact hf.acquire hs (Registry.quiet_animateDeeds _ target d params) _ _
  | lookup id => exact hf.acquire hs (Deed.quiet_of_tacit (Registry.tacit_map_retain _)) _ _
  | copy i => exact hf.acquire hs (Deed.quiet_of_tacit (Registry.tacit_map_retain _)) _ _
  | part i k => exact hf.acquire hs (Deed.quiet_of_tacit (Registry.tacit_map_retain _)) _ _
  | drop i => exact hf.drop hs i
  | connect rank => exact hf.connect hs rank
  | disconnect session =>
      exact hf.end session (fun _ => rfl) (fun _ => rfl) fun _ => Or.inl rfl
  | close session => exact hf.end session (fun _ => rfl) (fun _ => rfl) fun _ => Or.inr rfl
  | receive session => exact hf.receive session
  | flush => exact hf.flush hs

theorem fair_run (maxDepth : ℕ) (moves : List Move) : (run maxDepth moves).Fair := by
  have key (h : Hub) (hs : h.Steady) (hf : h.Fair) : (moves.foldl Hub.step h).Fair := by
    induction moves generalizing h with
    | nil => exact hf
    | cons move moves ih => exact ih (h.step move) (hs.step move) (hf.step hs move)
  exact key _ (steady_start maxDepth) (fair_start maxDepth)

theorem run_append (maxDepth : ℕ) (before after : List Move) :
    run maxDepth (before ++ after) = after.foldl Hub.step (run maxDepth before) :=
  List.foldl_append

end Hub
end AppearanceSync
