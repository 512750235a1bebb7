import AppearanceSync.Proofs.Draining
import AppearanceSync.Proofs.Registry.Chronicle

/-!
# Runs of a server

A hub is a registry and a broadcaster together with everybody who uses them:
callers, who hold handles, and clients, who take messages from their inboxes.
Its moves are the calls that callers and clients can make, in any order.

Besides what the program keeps, a hub keeps a record of what has happened: what
was announced, how much of it was delivered, what clients have taken, and when
sessions were ended.  The program never reads the record.
-/

namespace AppearanceSync

/-- A server with its callers and clients, and a record of what has happened. -/
structure Hub where
  registry : Registry
  broadcaster : Broadcaster
  /-- The handles that callers have. -/
  held : List Handle
  /-- Every announcement so far, with the registry right after it. -/
  history : List (OutboundEvent × Registry)
  /-- How many announcements have been delivered. -/
  delivered : ℕ
  /-- What clients have taken from their inboxes. -/
  received : List (SessionId × Message)
  /-- Sessions that either side has ended, with what had been delivered by then. -/
  ended : List (SessionId × ℕ)

/-- A call of a caller or a client. -/
inductive Move
  | intern (d : Descriptor)
  | animate (target : Target) (d : Descriptor) (params : PlayParams)
  | lookup (id : ContentId)
  /-- A second handle beside the `i`-th. -/
  | copy (i : ℕ)
  /-- A handle to the `k`-th part of what the `i`-th handle stands for. -/
  | part (i k : ℕ)
  | drop (i : ℕ)
  /-- What is registered is captured in ascending order of the rank of its id. -/
  | connect (rank : ContentId → ℕ)
  | disconnect (session : SessionId)
  /-- The client closes its inbox. -/
  | close (session : SessionId)
  | receive (session : SessionId)
  | flush

/-- The tree that a move asks for, if it does. -/
def Move.tree? : Move → Option Descriptor
  | .intern d | .animate _ d _ => some d
  | _ => none

namespace Registry

/-- The deeds of giving up what waits in the queue. -/
def roundDeeds (r : Registry) : List Deed :=
  r.takeAll.releaseAllDeeds (heldBy r.outbox.waiting.toList)

/-- The registry after what waits in the queue has been delivered. -/
def afterRound (r : Registry) : Registry :=
  r.takeAll.releaseAll (heldBy r.outbox.waiting.toList)

/-- What is announced while the queue is delivered. -/
def roundJournal (r : Registry) : List (OutboundEvent × Registry) :=
  r.takeAll.journal r.roundDeeds

end Registry

namespace Hub

/-- A hub that nobody has used yet; the plain appearance has been announced. -/
def start (maxDepth : ℕ) : Hub where
  registry := .start maxDepth
  broadcaster := .empty
  held := []
  history := (Registry.empty maxDepth).journal [.register Registry.standard]
  delivered := 0
  received := []
  ended := []

/-- The hub after deeds of its registry, by which callers got more handles. -/
def acquire (h : Hub) (deeds : List Deed) (registry : Registry) (more : List Handle) : Hub :=
  { h with registry, held := more ++ h.held, history := h.history ++ h.registry.journal deeds }

/-- The hub after callers have taken handles of registered instances. -/
def retain (h : Hub) (more : List Handle) : Hub :=
  h.acquire (more.map .retain) (more.foldl Registry.retain h.registry) more

/-- Records that one side has ended a session, if there is such a session. -/
def markEnded (h : Hub) (session : SessionId) : Hub :=
  match h.broadcaster.find? session with
  | some _ => { h with ended := h.ended ++ [(session, h.delivered)] }
  | none => h

/-- The hub after a move. -/
def step (h : Hub) : Move → Hub
  | .intern d =>
    let (registry, result) := h.registry.intern d
    h.acquire (h.registry.internDeeds d) registry (Registry.handedOut result)
  | .animate target d params =>
    let (registry, result) := h.registry.animate target d params
    h.acquire (h.registry.animateDeeds target d params) registry (Registry.handedOut result)
  | .lookup id =>
    let (registry, found) := h.registry.lookup id
    h.acquire (found.toList.map .retain) registry found.toList
  | .copy i => h.retain h.held[i]?.toList
  | .part i k => h.retain (h.held[i]?.bind fun a => a.parts[k]?).toList
  | .drop i =>
    match h.held[i]? with
    | some a =>
      { h with
        registry := h.registry.release a
        held := h.held.eraseIdx i
        history := h.history ++ h.registry.journal (h.registry.releaseDeeds a) }
    | none => h
  | .connect rank =>
    let captured := h.registry.live.mergeSort fun a b => rank a.id ≤ rank b.id
    let (broadcaster, registry, session) := h.broadcaster.connectWith h.registry captured
    { h with
      registry
      broadcaster
      history := h.history ++ h.registry.journal (Registry.joinDeeds session captured) }
  | .disconnect session =>
    { h.markEnded session with broadcaster := h.broadcaster.disconnect session }
  | .close session => { h.markEnded session with broadcaster := h.broadcaster.close session }
  | .receive session =>
    let (broadcaster, taken) := h.broadcaster.receive session
    { h with broadcaster, received := h.received ++ (taken.getD []).map fun m => (session, m) }
  | .flush =>
    let (broadcaster, registry, count) := h.broadcaster.flush h.registry
    { h with
      registry
      broadcaster
      history := h.history ++ (h.registry.roundJournal ++ h.registry.afterRound.roundJournal)
      delivered := h.delivered + count }

/-- The hub after moves in order. -/
def run (maxDepth : ℕ) (moves : List Move) : Hub := moves.foldl step (start maxDepth)

/-- The messages that were announced, in order. -/
def published (h : Hub) : List Message := Registry.messagesOf h.history

/-- The record is true of a hub: the registry's counts agree with the handles that
callers have, the history leads from nothing to what is registered, and the
queue is the part of the history that was not delivered. -/
structure Steady (h : Hub) : Prop where
  balanced : h.registry.Balanced h.held
  chronicle : Registry.Chronicle Ledger.empty h.history h.registry.ledger
  reached : h.delivered ≤ h.history.length
  waiting : h.registry.outbox.waiting.toList = (h.history.drop h.delivered).map Prod.fst

open Registry (Course Chronicle)

variable {h h' : Hub} {ds : List Deed}

theorem steady_start (maxDepth : ℕ) : (start maxDepth).Steady := by
  have hledger := Registry.ledger_register (.empty maxDepth) Registry.standard
  have hempty : (Registry.empty maxDepth).ledger = Ledger.empty := by
    funext id
    simp [Registry.ledger, Registry.find?, Registry.empty, Ledger.empty]
  rw [hempty] at hledger
  have hpermitted : Ledger.empty.Permits
      (.added ⟨Registry.standard.id, Registry.standard.toState⟩) := by
    refine ⟨rfl, (Canonical.id_ofParts ..).symm, ?_⟩
    intro ref href
    exact absurd href List.not_mem_nil
  refine ⟨Registry.balanced_start maxDepth, ?_, Nat.zero_le _, rfl⟩
  change Chronicle Ledger.empty _ ((Registry.empty maxDepth).register Registry.standard).ledger
  rw [hledger]
  exact .message hpermitted hledger (Registry.balanced_start maxDepth) (.nil _)

/-- A course of the registry by which callers get or give handles keeps the record true. -/
theorem Steady.of_course (hs : h.Steady) (hc : Course h.registry h.held ds h'.registry h'.held)
    (hhistory : h'.history = h.history ++ h.registry.journal ds)
    (hdelivered : h'.delivered = h.delivered) : h'.Steady := by
  have hlength := hs.reached
  constructor
  · exact hc.balanced hs.balanced
  · rw [hhistory]
    exact hs.chronicle.append (hc.chronicle hs.balanced)
  · rw [hdelivered, hhistory, List.length_append]
    omega
  · rw [hdelivered, hhistory, hc.waiting hs.balanced.isOpen, hs.waiting,
      List.drop_append_of_le_length hlength, List.map_append]

/-! ## Delivery of the queue -/

section Round

variable {r : Registry} {out : Multiset Handle}

/-- A round leaves callers with the handles that they had. -/
theorem round_course (h : r.Balanced out) :
    Course r.takeAll (r.queued + out) r.roundDeeds r.afterRound out :=
  Registry.releaseAll_course r.takeAll _ out h.takeAll

theorem balanced_afterRound (h : r.Balanced out) : r.afterRound.Balanced out :=
  (round_course h).balanced h.takeAll

theorem chronicle_roundJournal (h : r.Balanced out) :
    Chronicle r.ledger r.roundJournal r.afterRound.ledger :=
  (round_course h).chronicle h.takeAll

theorem waiting_afterRound (h : r.Balanced out) :
    r.afterRound.outbox.waiting.toList = r.roundJournal.map Prod.fst := by
  rw [(round_course h).waiting h.takeAll.isOpen]
  rfl

theorem roundJournal_messages (r : Registry) :
    ∀ e ∈ r.roundJournal, ∃ m, e.1 = .message m :=
  Registry.journal_of_quiet _ (Deed.quiet_of_tacit (Registry.tacit_releaseAllDeeds _ _))

/-- What a round announces holds no handles, so the next round announces nothing. -/
theorem roundJournal_afterRound (h : r.Balanced out) : r.afterRound.roundJournal = [] := by
  have hnone : Registry.heldBy r.afterRound.outbox.waiting.toList = [] := by
    rw [waiting_afterRound h, Registry.heldBy, List.flatMap_eq_nil_iff]
    intro event hevent
    obtain ⟨e, he, rfl⟩ := List.mem_map.mp hevent
    obtain ⟨m, hm⟩ := roundJournal_messages r e he
    rw [hm]
  rw [Registry.roundJournal, Registry.roundDeeds, hnone]
  rfl

end Round

theorem flush_eq (b : Broadcaster) (r : Registry) :
    b.flush r =
      (b.carryAll (r.outbox.waiting.toList ++ r.afterRound.outbox.waiting.toList),
        r.afterRound.afterRound,
        r.outbox.waiting.size + r.afterRound.outbox.waiting.size) := by
  simp only [Broadcaster.flush, Broadcaster.round, Broadcaster.deliverAll_eq]
  rw [Broadcaster.carryAll, Broadcaster.carryAll, Broadcaster.carryAll, List.foldl_append]
  rfl

/-- A flush delivers all that was not delivered, and what is announced meanwhile. -/
theorem Steady.step_flush (hs : h.Steady) :
    h.step .flush =
      { h with
        registry := h.registry.afterRound.afterRound
        broadcaster := h.broadcaster.carryAll
          ((h.history.drop h.delivered ++ h.registry.roundJournal).map Prod.fst)
        history := h.history ++ h.registry.roundJournal
        delivered := (h.history ++ h.registry.roundJournal).length } := by
  have hwaiting := waiting_afterRound hs.balanced
  have hempty := roundJournal_afterRound hs.balanced
  have hreached := hs.reached
  have hsize : h.registry.outbox.waiting.size = h.history.length - h.delivered := by
    rw [← Array.length_toList, hs.waiting, List.length_map, List.length_drop]
  have hsize' : h.registry.afterRound.outbox.waiting.size = h.registry.roundJournal.length := by
    rw [← Array.length_toList, hwaiting, List.length_map]
  have hcount : h.delivered + (h.registry.outbox.waiting.size +
      h.registry.afterRound.outbox.waiting.size) =
      (h.history ++ h.registry.roundJournal).length := by
    rw [hsize, hsize', List.length_append]
    omega
  simp only [step, flush_eq, hempty, List.append_nil, hcount, hs.waiting, hwaiting,
    ← List.map_append]

theorem Steady.flush (hs : h.Steady) : (h.step .flush).Steady := by
  have hfirst := balanced_afterRound hs.balanced
  have hsecond := chronicle_roundJournal hfirst
  rw [roundJournal_afterRound hs.balanced] at hsecond
  have hchronicle := (chronicle_roundJournal hs.balanced).append hsecond
  rw [List.append_nil] at hchronicle
  rw [hs.step_flush]
  constructor
  · exact balanced_afterRound hfirst
  · exact hs.chronicle.append hchronicle
  · exact le_rfl
  · rw [waiting_afterRound hfirst, roundJournal_afterRound hs.balanced, List.drop_length]

/-! ## Every move -/

/-- The deeds of a move that delivers nothing. -/
def deeds (h : Hub) : Move → List Deed
  | .intern d => h.registry.internDeeds d
  | .animate target d params => h.registry.animateDeeds target d params
  | .lookup id => (h.registry.find? id).toList.map .retain
  | .copy i => h.held[i]?.toList.map .retain
  | .part i k => (h.held[i]?.bind fun a => a.parts[k]?).toList.map .retain
  | .drop i => h.held[i]?.elim [] h.registry.releaseDeeds
  | .connect rank =>
    Registry.joinDeeds h.broadcaster.nextId
      (h.registry.live.mergeSort fun a b => rank a.id ≤ rank b.id)
  | .disconnect _ | .close _ | .receive _ | .flush => []

theorem step_lookup (h : Hub) (id : ContentId) :
    h.step (.lookup id) = h.retain (h.registry.find? id).toList := by
  rw [Hub.step, Registry.lookup]
  cases h.registry.find? id <;> rfl

theorem delivered_step (h : Hub) {move : Move} (hmove : move ≠ .flush) :
    (h.step move).delivered = h.delivered := by
  cases move with
  | drop i =>
      rw [Hub.step]
      split <;> rfl
  | disconnect session =>
      rw [Hub.step, markEnded]
      split <;> rfl
  | close session =>
      rw [Hub.step, markEnded]
      split <;> rfl
  | flush => exact absurd rfl hmove
  | _ => rfl

/-- What a move adds to the record is the journal of its deeds. -/
theorem history_eq_journal (h : Hub) {move : Move} (hmove : move ≠ .flush) :
    (h.step move).history = h.history ++ h.registry.journal (h.deeds move) := by
  have hnothing : h.history = h.history ++ h.registry.journal [] := (List.append_nil _).symm
  cases move with
  | lookup id =>
      rw [step_lookup]
      rfl
  | drop i =>
      rw [Hub.step, deeds]
      cases h.held[i]? with
      | none => exact hnothing
      | some a => rfl
  | disconnect session =>
      rw [Hub.step, markEnded]
      split <;> exact hnothing
  | close session =>
      rw [Hub.step, markEnded]
      split <;> exact hnothing
  | receive session => exact hnothing
  | flush => exact absurd rfl hmove
  | _ => rfl

theorem retain_course {more : List Handle}
    (hmore : ∀ a ∈ more, h.registry.find? a.id = some a) :
    Course h.registry h.held (more.map .retain) (h.retain more).registry (h.retain more).held := by
  have hcourse := Registry.retainAll_course h.registry more h.held hmore
  rwa [Multiset.coe_add] at hcourse

/-- A move that delivers nothing is the course of its deeds. -/
theorem Steady.step_course (hs : h.Steady) {move : Move} (hmove : move ≠ .flush) :
    Course h.registry h.held (h.deeds move) (h.step move).registry (h.step move).held := by
  have hfind (a : Handle) (ha : a ∈ h.held) : h.registry.find? a.id = some a :=
    hs.balanced.find?_of_mem ha
  have hnothing : Course h.registry h.held [] h.registry h.held := .refl _ _
  cases move with
  | intern d =>
      have hcourse := Registry.intern_course h.registry d h.held hs.balanced
      rwa [Multiset.coe_add] at hcourse
  | animate target d params =>
      have hcourse := Registry.animate_course h.registry target d params h.held hs.balanced
      rwa [Multiset.coe_add] at hcourse
  | lookup id =>
      rw [step_lookup]
      refine retain_course fun a ha => ?_
      have ha := Option.mem_toList.mp ha
      rw [hs.balanced.sound.named id a ha, ha]
  | copy i =>
      refine retain_course fun a ha => hfind a ?_
      exact List.mem_of_getElem? (Option.mem_toList.mp ha)
  | part i k =>
      refine retain_course fun b hb => ?_
      obtain ⟨a, ha, hb⟩ := Option.bind_eq_some_iff.mp (Option.mem_toList.mp hb)
      exact hs.balanced.sound.find?_of_mem_parts (hfind a (List.mem_of_getElem? ha))
        (List.mem_of_getElem? hb)
  | drop i =>
      rw [Hub.step, deeds]
      cases hi : h.held[i]? with
      | none => exact hnothing
      | some a =>
          have hheld : (h.held : Multiset Handle) = a ::ₘ h.held.eraseIdx i := by
            obtain ⟨hlt, rfl⟩ := List.getElem?_eq_some_iff.mp hi
            exact Multiset.coe_eq_coe.mpr (List.getElem_cons_eraseIdx_perm hlt).symm
          have hbalanced := hs.balanced
          rw [hheld] at hbalanced ⊢
          exact Registry.release_course h.registry a _ hbalanced
  | connect rank =>
      have hcaptured : (h.registry.live.mergeSort (fun a b => rank a.id ≤ rank b.id) :
          Multiset Handle) = h.registry.live :=
        Multiset.coe_eq_coe.mpr (List.mergeSort_perm _ _)
      exact Registry.join_course h.registry _ _ h.held hs.balanced hcaptured
  | disconnect session =>
      rw [Hub.step, markEnded]
      split <;> exact hnothing
  | close session =>
      rw [Hub.step, markEnded]
      split <;> exact hnothing
  | receive session => exact hnothing
  | flush => exact absurd rfl hmove

theorem Steady.step (hs : h.Steady) (move : Move) : (h.step move).Steady := by
  by_cases hmove : move = .flush
  · rw [hmove]
    exact hs.flush
  · exact hs.of_course (hs.step_course hmove) (h.history_eq_journal hmove) (h.delivered_step hmove)

/-- The record of every run is true. -/
theorem steady_run (maxDepth : ℕ) (moves : List Move) : (run maxDepth moves).Steady := by
  have key (h : Hub) (hs : h.Steady) : (moves.foldl Hub.step h).Steady := by
    induction moves generalizing h with
    | nil => exact hs
    | cons move moves ih => exact ih (h.step move) (hs.step move)
  exact key _ (steady_start maxDepth)

end Hub
end AppearanceSync
