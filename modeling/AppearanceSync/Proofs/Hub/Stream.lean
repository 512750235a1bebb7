import AppearanceSync.Proofs.Hub.Basic
import AppearanceSync.Proofs.Snapshot

/-!
# The stream of one session

A session's stream is read off the history: a table when the session joins, and
from then on every message.  A session that nobody has ended and that has heard a
part of the history has been sent the stream of that part.
-/

namespace AppearanceSync

open Registry (Chronicle)

/-- The messages among history entries, each with the registry right after it. -/
def messagesWith (entries : List (OutboundEvent × Registry)) : List (Message × Registry) :=
  entries.filterMap fun e => e.1.message?.map fun m => (m, e.2)

/-- What a session is to be told, each message with the registry right after it. -/
def stream (session : SessionId) : List (OutboundEvent × Registry) → List (Message × Registry)
  | [] => []
  | (.message _, _) :: entries => stream session entries
  | (.join joined _, r) :: entries =>
    if joined = session then (.snapshot r.snapshot, r) :: messagesWith entries
    else stream session entries

/-- The session does not join in these entries. -/
def NotJoining (session : SessionId) (entries : List (OutboundEvent × Registry)) : Prop :=
  ∀ e ∈ entries, ∀ held, e.1 ≠ .join session held

/-- Every table that is made of captured instances shows what was registered. -/
def Captured (entries : List (OutboundEvent × Registry)) : Prop :=
  ∀ e ∈ entries, ∀ session held, e.1 = .join session held →
    Registry.tableOf held = e.2.snapshot

variable {session : SessionId} {entries before after : List (OutboundEvent × Registry)}
  {e : OutboundEvent × Registry} {s : Session} {taken : List Message}

theorem messagesWith_append (before after : List (OutboundEvent × Registry)) :
    messagesWith (before ++ after) = messagesWith before ++ messagesWith after :=
  List.filterMap_append

theorem map_fst_messagesWith (entries : List (OutboundEvent × Registry)) :
    (messagesWith entries).map Prod.fst = Registry.messagesOf entries := by
  rw [messagesWith, Registry.messagesOf, List.map_filterMap]
  congr 1
  funext e
  simp [Function.comp_def]

/-- Once a session has joined, its stream goes on with every message. -/
theorem stream_append (session : SessionId) (before after : List (OutboundEvent × Registry)) :
    stream session (before ++ after) =
      if stream session before = [] then stream session after
      else stream session before ++ messagesWith after := by
  induction before with
  | nil => rfl
  | cons e before ih =>
      obtain ⟨event, r⟩ := e
      cases event with
      | message m => exact ih
      | join joined held =>
          rw [List.cons_append, stream, stream]
          split
          · simp [messagesWith_append]
          · exact ih

theorem NotJoining.stream_eq_nil (h : NotJoining session entries) : stream session entries = [] := by
  induction entries with
  | nil => rfl
  | cons e entries ih =>
      have hrest := ih fun f hf => h f (by simp [hf])
      obtain ⟨event, r⟩ := e
      cases event with
      | message m => exact hrest
      | join joined held =>
          have hne : joined ≠ session := by
            rintro rfl
            exact h (.join joined held, r) (by simp) held rfl
          rw [stream, if_neg hne, hrest]

theorem NotJoining.append (h : NotJoining session before) (h' : NotJoining session after) :
    NotJoining session (before ++ after) := by
  intro e he
  rcases List.mem_append.mp he with he | he
  · exact h e he
  · exact h' e he

theorem NotJoining.of_append (h : NotJoining session (before ++ after)) :
    NotJoining session before :=
  fun e he => h e (List.mem_append_left _ he)

theorem notJoining_iff_stream_eq_nil : NotJoining session entries ↔ stream session entries = [] := by
  refine ⟨fun h => h.stream_eq_nil, fun h => ?_⟩
  induction entries with
  | nil => exact fun e he => absurd he List.not_mem_nil
  | cons e entries ih =>
      obtain ⟨event, r⟩ := e
      intro f hf held heq
      cases event with
      | message m =>
          rcases List.mem_cons.mp hf with rfl | hf
          · simp at heq
          · exact ih h f hf held heq
      | join joined held' =>
          rw [stream] at h
          split at h
          · simp at h
          · next hne =>
              rcases List.mem_cons.mp hf with rfl | hf
              · exact hne (OutboundEvent.join.inj heq).1
              · exact ih h f hf held heq

theorem notJoining_of_messages (h : ∀ e ∈ entries, ∃ m, e.1 = .message m) (session : SessionId) :
    NotJoining session entries := by
  intro e he held heq
  obtain ⟨m, hm⟩ := h e he
  rw [hm] at heq
  simp at heq

theorem Registry.Chronicle.captured {K K' : Ledger} (h : Chronicle K entries K') :
    Captured entries := by
  induction h with
  | nil => exact fun e he => absurd he List.not_mem_nil
  | message _ _ _ _ ih =>
      intro e he session held heq
      rcases List.mem_cons.mp he with rfl | he
      · simp at heq
      · exact ih e he session held heq
  | join hcaptured _ hbalanced _ ih =>
      intro e he session held heq
      rcases List.mem_cons.mp he with rfl | he
      · obtain ⟨rfl, rfl⟩ := OutboundEvent.join.inj heq
        exact Registry.tableOf_eq_snapshot hbalanced.sound.named hcaptured
      · exact ih e he session held heq

/-! ## A session that nobody has ended -/

/-- What a session is like that has heard these entries and that nobody has ended,
if its client has taken these messages. -/
structure Session.Served (s : Session) (taken : List Message)
    (entries : List (OutboundEvent × Registry)) : Prop where
  isOpen : s.inbox.isOpen = true
  sent : taken ++ s.inbox.waiting.toList = (stream s.id entries).map Prod.fst
  stage : s.stage = .joining ∧ stream s.id entries = [] ∨
    s.stage = .active ∧ stream s.id entries ≠ []

theorem Session.send_of_isOpen (h : s.inbox.isOpen = true) (m : Message) :
    s.send m = { s with stage := .active, inbox := s.inbox.push m } := if_pos h

theorem Session.Served.hear (h : s.Served taken entries) (hcaptured : Captured [e]) :
    (s.hear e.1).Served taken (entries ++ [e]) := by
  obtain ⟨event, r⟩ := e
  have happend := stream_append s.id entries [(event, r)]
  rcases h.stage with ⟨hstage, hnil⟩ | ⟨hstage, hcons⟩
  · rw [hnil, if_pos rfl] at happend
    have htaken : taken ++ s.inbox.waiting.toList = [] := by
      rw [h.sent, hnil, List.map_nil]
    cases event with
    | message m =>
        have hsame : s.hear (.message m) = s := if_neg (by simp [hstage])
        rw [hsame]
        exact ⟨h.isOpen, by rw [happend, htaken]; rfl, Or.inl ⟨hstage, happend⟩⟩
    | join joined held =>
        by_cases hjoined : joined = s.id
        · -- the table is the first that is sent
          subst hjoined
          have hheard : s.hear (.join s.id held) = s.send (.snapshot (Registry.tableOf held)) :=
            if_pos ⟨rfl, hstage⟩
          have htable := hcaptured _ (List.mem_singleton.mpr rfl) s.id held rfl
          have hstream : stream s.id (entries ++ [(.join s.id held, r)]) =
              [(.snapshot r.snapshot, r)] := by
            rw [happend, stream, if_pos rfl]
            rfl
          rw [hheard, send_of_isOpen h.isOpen]
          refine ⟨h.isOpen, ?_, Or.inr ⟨rfl, ?_⟩⟩
          · simp only [Inbox.push, Array.toList_push]
            rw [← List.append_assoc, htaken, hstream, htable]
            rfl
          · simp [hstream]
        · have hsame : s.hear (.join joined held) = s := if_neg fun hs => hjoined hs.1.symm
          rw [stream, if_neg hjoined] at happend
          rw [hsame]
          exact ⟨h.isOpen, by rw [happend, htaken]; rfl, Or.inl ⟨hstage, happend⟩⟩
  · rw [if_neg hcons] at happend
    have hne : stream s.id (entries ++ [(event, r)]) ≠ [] := by
      rw [happend]
      exact fun hnil => hcons (List.append_eq_nil_iff.mp hnil).1
    cases event with
    | message m =>
        have hheard : s.hear (.message m) = s.send m := if_pos hstage
        rw [hheard, send_of_isOpen h.isOpen]
        refine ⟨h.isOpen, ?_, Or.inr ⟨rfl, hne⟩⟩
        simp only [Inbox.push, Array.toList_push]
        rw [← List.append_assoc, h.sent, happend, List.map_append]
        rfl
    | join joined held =>
        have hsame : s.hear (.join joined held) = s := if_neg (by simp [hstage])
        rw [hsame]
        refine ⟨h.isOpen, ?_, Or.inr ⟨hstage, hne⟩⟩
        rw [happend, h.sent, List.map_append]
        exact (List.append_nil _).symm

/-- A session that hears more of the history has been sent more of its stream. -/
theorem Session.Served.foldl (h : s.Served taken before) (hcaptured : Captured after) :
    ((after.map Prod.fst).foldl Session.hear s).Served taken (before ++ after) := by
  induction after generalizing s before with
  | nil => rwa [List.append_nil]
  | cons e after ih =>
      have hhead := h.hear (e := e) fun f hf => hcaptured f (by simp_all)
      have hrest := ih hhead fun f hf => hcaptured f (by simp [hf])
      rwa [List.append_assoc] at hrest

/-! ## A session that somebody has ended -/

theorem Session.Ended.foldl (h : s.Ended) (events : List OutboundEvent) :
    (events.foldl Session.hear s).Ended ∧ (events.foldl Session.hear s).inbox = s.inbox := by
  induction events generalizing s with
  | nil => exact ⟨h, rfl⟩
  | cons e events ih =>
      obtain ⟨hhead, hinbox⟩ := h.hear e
      obtain ⟨hrest, hsame⟩ := ih hhead
      exact ⟨hrest, hsame.trans hinbox⟩

end AppearanceSync
