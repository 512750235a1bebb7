import AppearanceSync.Proofs.Hub.Delivery
import AppearanceSync.Proofs.Mirror

/-!
# Clients mirror the server

A client that carries out the messages of its session has, after each of them, what
was registered right after that message was announced.  Between messages it may ask
its replica for anything.
-/

namespace AppearanceSync

open Registry (Chronicle)

namespace Replica

/-- The replica after a message; the entries of a table are taken in ascending order
of the ranks of their ids. -/
def hear (c : Replica) (rank : ContentId → ℕ) : Message → Replica
  | .snapshot table => c.applyEntries (table.entries.mergeSort fun a b => rank a.1 ≤ rank b.1)
  | m => c.apply m

/-- The replica after messages and requests in turn: the `i`-th requests come before
the `i`-th message, and the last ones after all messages. -/
def follow (rank : ContentId → ℕ) (asks : ℕ → List Request) : ℕ → Replica → List Message → Replica
  | i, c, [] => (asks i).foldl ask c
  | i, c, m :: ms => follow rank asks (i + 1) (((asks i).foldl ask c).hear rank m) ms

end Replica

/-- Each message is permitted when its turn comes, and it comes with a registry in
use that has what the message leads to. -/
def Faithful : Ledger → List (Message × Registry) → Prop
  | _, [] => True
  | K, (m, r) :: st =>
    K.Permits m ∧ r.ledger = K.apply m ∧ (∃ out, r.Balanced out) ∧ Faithful (K.apply m) st

variable {K K' : Ledger} {entries : List (OutboundEvent × Registry)} {session : SessionId}
  {st : List (Message × Registry)} {m : Message} {r : Registry} {n i : ℕ} {c : Replica}
  {rank : ContentId → ℕ} {asks : ℕ → List Replica.Request}

/-! ## The stream of a session -/

theorem Registry.Chronicle.faithful (h : Chronicle K entries K') :
    Faithful K (messagesWith entries) := by
  induction h with
  | nil => trivial
  | message hm hledger hbalanced _ ih => exact ⟨hm, hledger, ⟨_, hbalanced⟩, ih⟩
  | join _ _ _ _ ih => exact ih

/-- A session's stream begins with the table of a registry and goes on faithfully to
what is registered at the end. -/
theorem Registry.Chronicle.stream (h : Chronicle K entries K') (session : SessionId) :
    stream session entries = [] ∨
      ∃ r st, stream session entries = (.snapshot r.snapshot, r) :: st ∧
        (∃ out, r.Balanced out) ∧ Faithful r.ledger st ∧ r.ledger.replay (st.map Prod.fst) = K' := by
  induction h with
  | nil => exact Or.inl rfl
  | message _ _ _ _ ih => exact ih
  | @join K joined R out entries K' held _ hledger hbalanced hrest ih =>
      by_cases heq : joined = session
      · refine Or.inr ⟨R, messagesWith entries, ?_, ⟨out, hbalanced⟩, ?_, ?_⟩
        · rw [AppearanceSync.stream, if_pos heq]
        · rw [hledger]
          exact hrest.faithful
        · rw [hledger, map_fst_messagesWith, hrest.replay_eq]
      · rw [AppearanceSync.stream, if_neg heq]
        exact ih

theorem Faithful.take (h : Faithful K st) (n : ℕ) : Faithful K (st.take n) := by
  induction st generalizing K n with
  | nil => simpa using h
  | cons e st ih =>
      obtain ⟨m, r⟩ := e
      obtain ⟨hm, hledger, hbalanced, hrest⟩ := h
      cases n with
      | zero => trivial
      | succ n => exact ⟨hm, hledger, hbalanced, ih hrest n⟩

/-- The registry that comes with a message has what the messages up to it lead to. -/
theorem Faithful.registry (h : Faithful K st) (hn : st[n]? = some (m, r)) :
    r.ledger = K.replay ((st.take (n + 1)).map Prod.fst) ∧ ∃ out, r.Balanced out := by
  induction st generalizing K n with
  | nil => simp at hn
  | cons e st ih =>
      obtain ⟨m', r'⟩ := e
      obtain ⟨hm, hledger, hbalanced, hrest⟩ := h
      cases n with
      | zero =>
          obtain ⟨rfl, rfl⟩ := Prod.mk.inj (Option.some.inj hn)
          exact ⟨hledger, hbalanced⟩
      | succ n => exact ih hrest hn

/-! ## Clients -/

namespace Replica

theorem Settling.askAll (h : c.Settling [] []) (qs : List Request) :
    (qs.foldl Replica.ask c).Settling [] [] := by
  induction qs generalizing c with
  | nil => exact h
  | cons q qs ih => exact ih (h.ask q)

/-- A table puts any replica on the track of the registry that it was made of. -/
theorem Settling.tracks_hear {out : Multiset Handle} (h : c.Settling [] []) (hr : r.Balanced out)
    (rank : ContentId → ℕ) : (c.hear rank (.snapshot r.snapshot)).Tracks r.ledger := by
  have hperm := List.mergeSort_perm r.snapshot.entries fun a b => rank a.1 ≤ rank b.1
  have hdistinct := r.snapshot.pairwise_ne.perm hperm.symm Ne.symm
  have hnamed : ∀ e ∈ r.snapshot.entries.mergeSort (fun a b => rank a.1 ≤ rank b.1),
      e.2.contentId = e.1 := by
    intro e he
    have htable := Registry.tableOf_perm hr.sound.named (.refl r.live)
    obtain ⟨a, ha, rfl⟩ := List.mem_map.mp (htable.mem_iff.mp (hperm.mem_iff.mp he))
    obtain ⟨id, hid⟩ := Registry.mem_live_iff.mp ha
    exact (hr.sound.hashed id a hid).symm
  have htracks := h.tracks_applyEntries hdistinct hnamed
  have hledger : (fun id => (r.snapshot.entries.mergeSort
      fun a b => rank a.1 ≤ rank b.1).lookup id) = r.ledger := by
    rw [← Registry.ofTable_snapshot hr.sound.named]
    funext id
    apply Option.ext
    intro state
    rw [Ledger.ofTable, Snapshot.lookup_eq_some_iff hdistinct,
      Snapshot.lookup_eq_some_iff r.snapshot.pairwise_ne, hperm.mem_iff]
  rwa [hledger] at htracks

theorem Tracks.hear (h : c.Tracks K) (hm : K.Permits m) (rank : ContentId → ℕ) :
    (c.hear rank m).Tracks (K.apply m) := by
  cases m with
  | snapshot table => exact hm.elim
  | added e => exact h.apply hm
  | removed e => exact h.apply hm
  | animate e => exact h.apply hm

/-- A replica stays on the track while it follows a faithful stream. -/
theorem Tracks.follow (h : c.Tracks K) (hst : Faithful K st) :
    (follow rank asks i c (st.map Prod.fst)).Tracks (K.replay (st.map Prod.fst)) := by
  induction st generalizing c K i with
  | nil => exact h.askAll (asks i)
  | cons e st ih =>
      obtain ⟨m, r⟩ := e
      obtain ⟨hm, -, -, hrest⟩ := hst
      exact ih ((h.askAll (asks i)).hear hm rank) hrest

/-- An empty replica is put on the track by the first message of a stream. -/
theorem tracks_stream {out : Multiset Handle} (tileSize : ℕ) (rank : ContentId → ℕ)
    (asks : ℕ → List Request) (hr : r.Balanced out)
    (hst : Faithful r.ledger st) :
    (follow rank asks 0 (empty tileSize) (.snapshot r.snapshot :: st.map Prod.fst)).Tracks
      (r.ledger.replay (st.map Prod.fst)) :=
  ((((settling_empty tileSize).askAll (asks 0)).tracks_hear hr rank).follow hst)

/-- After any message of a stream the replica mirrors the registry of that message. -/
theorem mirrors_stream {out : Multiset Handle} (tileSize : ℕ) (rank : ContentId → ℕ)
    (asks : ℕ → List Request) (hr : r.Balanced out)
    (hst : Faithful r.ledger st) {r' : Registry}
    (hn : ((.snapshot r.snapshot, r) :: st)[n]? = some (m, r')) :
    (follow rank asks 0 (empty tileSize)
      ((.snapshot r.snapshot :: st.map Prod.fst).take (n + 1))).Mirrors r' := by
  have htracks := tracks_stream tileSize rank asks hr (hst.take n)
  rw [List.map_take] at htracks
  rw [List.take_succ_cons]
  cases n with
  | zero =>
      obtain ⟨rfl, rfl⟩ := Prod.mk.inj (Option.some.inj hn)
      exact htracks.mirrors hr
  | succ n =>
      obtain ⟨hledger, out', hr'⟩ := hst.registry hn
      rw [← List.map_take, ← hledger, List.map_take] at htracks
      exact htracks.mirrors hr'

end Replica

namespace Hub

open Replica (follow Mirrors)

/-- In every run, a client that starts with an empty replica and carries out a
nonempty part of the messages of its session, from the first on and with any requests
in between, mirrors the registry as it was right after the last of these messages was
announced.  After a flush, a client of a session that neither side has ended and that
has carried out all of them mirrors the registry as it is. -/
theorem client_mirrors
    (maxDepth tileSize : ℕ) (moves : List Move) (session : SessionId)
    (rank : ContentId → ℕ) (asks : ℕ → List Replica.Request) :
    let h := run maxDepth moves
    let flushed := h.step .flush
    let client := fun messages => follow rank asks 0 (.empty tileSize) messages
    (∀ n m, (h.sentTo session)[n]? = some m →
      ∃ r, (h.streamOf session)[n]? = some (m, r) ∧
        Mirrors (client ((h.sentTo session).take (n + 1))) r) ∧
    ∀ s, flushed.broadcaster.find? session = some s → ¬s.Ended →
      Mirrors (client (flushed.sentTo session)) flushed.registry := by
  intro h flushed client
  have hsteady : h.Steady := steady_run maxDepth moves
  have hfair : h.Fair := fair_run maxDepth moves
  refine ⟨?_, ?_⟩
  · intro n m hm
    obtain ⟨K, hchronicle, -⟩ : ∃ K, Chronicle Ledger.empty (h.history.take (h.reach session)) K ∧
        Chronicle K (h.history.drop (h.reach session)) h.registry.ledger := by
      refine Chronicle.split ?_
      rw [List.take_append_drop]
      exact hsteady.chronicle
    rw [hfair.sentTo_eq, List.getElem?_map] at hm
    obtain ⟨⟨m', r'⟩, hn, rfl⟩ := Option.map_eq_some_iff.mp hm
    refine ⟨r', hn, ?_⟩
    rw [hfair.sentTo_eq]
    rw [streamOf] at hn ⊢
    rcases hchronicle.stream session with hnone | ⟨r, st, hstream, ⟨out, hr⟩, hfaithful, -⟩
    · rw [hnone] at hn
      simp at hn
    · rw [hstream] at hn ⊢
      exact Replica.mirrors_stream tileSize rank asks hr hfaithful hn
  · intro s hfound hopen
    have hflushed : flushed.Steady := hsteady.step .flush
    have hfair' : flushed.Fair := hfair.step hsteady .flush
    have hserved := hfair'.known session s hfound
    have hdelivered : flushed.delivered = flushed.history.length := by
      have hstep : flushed = h.step .flush := rfl
      rw [hstep, hsteady.step_flush]
    -- nobody has ended the session, so all of the history counts for it
    cases hended : flushed.ended.lookup session with
    | some k =>
        rw [hended] at hserved
        exact absurd hserved.1 hopen
    | none =>
        have hsent : flushed.sentTo session = (stream session flushed.history).map Prod.fst := by
          rw [hfair'.sentTo_eq, streamOf, reach, hended, Option.getD_none,
            hdelivered, List.take_length]
        have hjoined : stream session flushed.history ≠ [] := by
          rw [Ne, ← notJoining_iff_stream_eq_nil]
          exact hfair'.joins session (by rw [hfound, Option.isSome_some])
        obtain ⟨r, st, hstream, ⟨out, hr⟩, hfaithful, hlast⟩ :=
          (hflushed.chronicle.stream session).resolve_left hjoined
        have htracks := Replica.tracks_stream tileSize rank asks hr hfaithful
        rw [hlast] at htracks
        rw [hsent, hstream]
        exact htracks.mirrors hflushed.balanced

end Hub
end AppearanceSync
