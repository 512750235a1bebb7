import AppearanceSync.Proofs.Frame
import AppearanceSync.Pump

/-!
# What a pump delivers

A pump writes frames in the order of their messages and stops at the first that cannot be
written.  So at any time what it has written is the frames of some messages, and perhaps the
beginning of one more; the other messages are still in the channel.  The far side reads the
messages whose frames are whole, and nothing else.
-/

namespace AppearanceSync.Pump

open ByteStream
open AppearanceSync.Frame (limit bytes bytesOf readAll)

variable {p : Pump} {m : Message} {ms written torn : List Message} {cut : List UInt8}
  {moves : List Move}

/-- The messages that the channel takes: those that are sent before it is closed. -/
def put : List Move → List Message
  | [] => []
  | .send m :: moves => m :: put moves
  | .close :: _ => []
  | .advance :: moves => put moves

/-- Everything written so far has been flushed. -/
def Flushed (p : Pump) : Prop := p.sink.flushes.getLastD 0 = p.sink.contents.size

/-- The message that was taken and not written whole, and what was written of it: there is one
exactly if the pump has failed. -/
inductive Torn : PumpPhase → List Message → List UInt8 → Prop
  | none {phase : PumpPhase} (h : ∀ e, phase ≠ .failed e) : Torn phase [] []
  | one {e : FrameError} {m : Message} {cut : List UInt8} (hbegin : cut <+: bytes m)
      (hne : cut ≠ bytes m) (hsmall : cut = [] ∨ m.encode.length ≤ limit) :
      Torn (.failed e) [m] cut

/-- Every message that was put in the channel has been written, is torn, or is still there. -/
structure Account (p : Pump) (ms written torn : List Message) (cut : List UInt8) : Prop where
  flowing : p.sink.Flowing
  sent : p.sent = written.length
  small : ∀ m ∈ written, m.encode.length ≤ limit
  messages : ms = written ++ (torn ++ p.queue)
  contents : p.sink.contents.toList = bytesOf written ++ cut
  torn : Torn p.phase torn cut
  flushed : p.phase = .waiting → p.queue = [] → p.Flushed
  drained : p.phase = .finished → p.queue = [] ∧ p.closed

/-- There is an account of the messages that were put in the channel. -/
def Accounted (p : Pump) (ms : List Message) : Prop :=
  ∃ written torn cut, p.Account ms written torn cut

theorem accounted_start (limit : Option ℕ) {portion : ℕ → ℕ} (h : ∀ k, 0 < portion k) :
    (start (.empty limit portion)).Accounted [] :=
  ⟨[], [], [], h, rfl, by simp, rfl, rfl, .none nofun, fun _ _ => rfl, nofun⟩

/-! ## Single moves -/

theorem Accounted.send (h : p.Accounted ms) (m : Message) :
    (p.send m).Accounted (if p.closed then ms else ms ++ [m]) := by
  rw [Pump.send]
  split
  · exact h
  · next hopen =>
      obtain ⟨written, torn, cut, h⟩ := h
      refine ⟨written, torn, cut, h.flowing, h.sent, h.small, ?_, h.contents, h.torn, ?_, ?_⟩
      · rw [h.messages, List.append_assoc, List.append_assoc]
      · intro _ hnil
        exact absurd hnil (by simp)
      · intro hfinished
        exact absurd (h.drained hfinished).2 hopen

theorem Accounted.close (h : p.Accounted ms) : p.close.Accounted ms := by
  obtain ⟨written, torn, cut, h⟩ := h
  exact ⟨written, torn, cut, h.flowing, h.sent, h.small, h.messages, h.contents, h.torn,
    h.flushed, fun hfinished => ⟨(h.drained hfinished).1, rfl⟩⟩

/-- While the pump has not failed, no message is torn. -/
theorem Account.whole (h : p.Account ms written torn cut) (hphase : ∀ e, p.phase ≠ .failed e) :
    torn = [] ∧ cut = [] := by
  have htorn := h.torn
  generalize p.phase = phase at hphase htorn
  cases htorn with
  | none => exact ⟨rfl, rfl⟩
  | one => exact absurd rfl (hphase _)

theorem flushed_flush (p : Pump) (queue : List Message) (phase : PumpPhase) :
    Flushed { p with queue, sink := p.sink.flush, phase } := by
  change (p.sink.flushes ++ [p.sink.contents.size]).getLastD 0 = p.sink.contents.size
  rw [List.getLastD_concat]

/-- A message that is taken is written whole, or it is torn. -/
theorem Account.take {queue : List Message} (h : p.Account ms written [] [])
    (hqueue : p.queue = m :: queue) : p.receive.Accounted ms := by
  have hmessages : ms = written ++ (m :: queue) := by rw [h.messages, hqueue, List.nil_append]
  have hcontents : p.sink.contents.toList = bytesOf written := by
    rw [h.contents, List.append_nil]
  by_cases hm : m.encode.length ≤ limit
  · obtain ⟨calls, hwrite⟩ := Frame.write_eq h.flowing hm
    by_cases hall : p.sink.allowed (bytes m) = bytes m
    · rw [if_pos hall] at hwrite
      refine ⟨written ++ [m], [], [], ?_⟩
      rw [receive, hqueue]
      simp only [hwrite]
      refine ⟨h.flowing, ?_, ?_, ?_, ?_, .none nofun, nofun, nofun⟩
      · rw [h.sent, List.length_append, List.length_singleton]
      · intro m' hm'
        rcases List.mem_append.mp hm' with hm' | hm'
        · exact h.small m' hm'
        · rwa [List.mem_singleton.mp hm']
      · rw [hmessages, List.nil_append, List.append_assoc, List.singleton_append]
      · rw [Array.toList_appendList, hcontents, hall, Frame.bytesOf_concat, List.append_nil]
    · rw [if_neg hall] at hwrite
      refine ⟨written, [m], p.sink.allowed (bytes m), ?_⟩
      rw [receive, hqueue]
      simp only [hwrite]
      refine ⟨h.flowing, h.sent, h.small, hmessages, ?_,
        .one (Sink.allowed_prefix _ _) hall (Or.inr hm), nofun, nofun⟩
      rw [Array.toList_appendList, hcontents]
  · have hwrite := Frame.write_tooLarge (Nat.not_le.mp hm) p.sink
    have hne : [] ≠ bytes m := fun hnil => by
      have hlength := Frame.length_bytes m
      rw [← hnil, List.length_nil] at hlength
      omega
    refine ⟨written, [m], [], ?_⟩
    rw [receive, hqueue]
    simp only [hwrite]
    exact ⟨h.flowing, h.sent, h.small, hmessages, h.contents,
      .one List.nil_prefix hne (Or.inl rfl), nofun, nofun⟩

theorem Accounted.receive (h : p.Accounted ms) (hphase : p.phase = .waiting) :
    p.receive.Accounted ms := by
  obtain ⟨written, torn, cut, h⟩ := h
  obtain ⟨rfl, rfl⟩ := h.whole (by rw [hphase]; exact nofun)
  cases hqueue : p.queue with
  | cons m queue => exact h.take hqueue
  | nil =>
      rw [Pump.receive, hqueue]
      by_cases hclosed : p.closed
      · simp only [hclosed, if_true]
        exact ⟨written, [], [], h.flowing, h.sent, h.small, hqueue ▸ h.messages, h.contents,
          .none nofun, nofun, fun _ => ⟨rfl, rfl⟩⟩
      · simp only [if_neg hclosed]
        exact ⟨written, [], [], h⟩

theorem Accounted.settle (h : p.Accounted ms) (hphase : p.phase = .wrote) :
    p.settle.Accounted ms := by
  obtain ⟨written, torn, cut, h⟩ := h
  obtain ⟨rfl, rfl⟩ := h.whole (by rw [hphase]; exact nofun)
  rw [Pump.settle]
  split
  · exact ⟨written, [], [], h.flowing, h.sent, h.small, h.messages, h.contents, .none nofun,
      fun _ _ => p.flushed_flush _ _, nofun⟩
  · next hqueue =>
      exact ⟨written, [], [], h.flowing, h.sent, h.small, h.messages, h.contents, .none nofun,
        fun _ hnil => absurd (List.isEmpty_iff.mpr hnil) hqueue, nofun⟩

theorem Accounted.advance (h : p.Accounted ms) : p.advance.Accounted ms := by
  rw [Pump.advance]
  cases hphase : p.phase with
  | waiting => exact h.receive hphase
  | wrote => exact h.settle hphase
  | finished => exact h
  | failed e => exact h

/-! ## Runs -/

@[simp]
theorem closed_send (p : Pump) (m : Message) : (p.send m).closed = p.closed := by
  rw [send]
  split <;> rfl

@[simp]
theorem closed_advance (p : Pump) : p.advance.closed = p.closed := by
  rw [advance]
  split
  · rw [receive]
    repeat' split <;> try rfl
  · rw [settle]
    split <;> rfl
  · rfl
  · rfl

theorem Accounted.run (h : p.Accounted ms) (moves : List Move) :
    (p.run moves).Accounted (if p.closed then ms else ms ++ put moves) := by
  induction moves generalizing p ms with
  | nil => rwa [put, List.append_nil, ite_self]
  | cons move moves ih =>
      cases move with
      | send m =>
          change ((p.send m).run moves).Accounted _
          have hmore := ih (h.send m)
          rw [closed_send] at hmore
          by_cases hclosed : p.closed
          · simp only [if_pos hclosed] at hmore
            rwa [if_pos hclosed]
          · simp only [if_neg hclosed, List.append_assoc] at hmore
            rwa [if_neg hclosed]
      | close =>
          change (p.close.run moves).Accounted _
          rw [put, List.append_nil, ite_self]
          exact ih h.close
      | advance =>
          have hmore := ih h.advance
          rwa [closed_advance] at hmore

theorem Account.take_sent (h : p.Account ms written torn cut) : ms.take p.sent = written := by
  rw [h.messages, h.sent, List.take_left' rfl]

/-- A torn message is the one after those that were written, and those behind it are untouched. -/
theorem Account.of_failed {e : FrameError} (h : p.Account ms written torn cut)
    (hphase : p.phase = .failed e) :
    ∃ m, ms[p.sent]? = some m ∧ p.queue = ms.drop (p.sent + 1) ∧ cut <+: bytes m ∧
      cut ≠ bytes m := by
  have htorn := h.torn
  rw [hphase] at htorn
  cases htorn with
  | none hne => exact absurd rfl (hne e)
  | one hbegin hne _ =>
      have hmessages := h.messages
      rw [← List.append_assoc] at hmessages
      refine ⟨_, ?_, ?_, hbegin, hne⟩
      · rw [h.messages, h.sent]
        simp
      · rw [hmessages, h.sent, List.drop_left' (by rw [List.length_append, List.length_singleton])]

/-- The far side reads the messages that were written whole. -/
theorem Account.readAll_messages (h : p.Account ms written torn cut) {reads : ℕ → ℕ}
    (hreads : ∀ k, 0 < reads k) :
    (readAll (.ofBytes p.sink.contents.toList reads)).messages = ms.take p.sent := by
  have hyields : ∃ ending, Frame.Yields (.ofBytes p.sink.contents.toList reads) written ending := by
    have htorn := h.torn
    generalize p.phase = phase at htorn
    cases htorn with
    | none _ => exact Frame.yields_bytesOf_append hreads h.small h.contents (Or.inl rfl)
    | one hbegin hne hsmall =>
        exact Frame.yields_bytesOf_append hreads h.small h.contents
          (hsmall.imp_right fun hm => ⟨_, hm, hbegin, hne⟩)
  obtain ⟨ending, hyields⟩ := hyields
  rw [h.take_sent]
  exact ((Frame.yields_readAll _).unique hyields).1

/-- A message that is taken is written or fails. -/
theorem receive_cons {queue : List Message} (h : p.queue = m :: queue) :
    p.receive.phase = .wrote ∧ p.receive.queue = queue ∨ ∃ e, p.receive.phase = .failed e := by
  rw [receive, h]
  simp only
  split
  · exact Or.inl ⟨rfl, rfl⟩
  · exact Or.inr ⟨_, rfl⟩

/-- The pump is done: it has written everything, or a frame could not be written. -/
def Done (p : Pump) : Prop := p.phase = .finished ∨ ∃ e, p.phase = .failed e

/-- Once the channel is closed, the pump alone comes to an end. -/
theorem exists_done (hclosed : p.closed) : ∃ n, (p.advanceBy n).Done := by
  have hwaiting (queue : List Message) : ∀ q : Pump, q.queue = queue → q.closed →
      q.phase = .waiting → ∃ n, (q.advanceBy n).Done := by
    induction queue with
    | nil =>
        intro q hqueue hclosed hphase
        refine ⟨1, Or.inl ?_⟩
        simp only [advanceBy, advance, hphase, receive, hqueue, hclosed, if_true]
    | cons m queue ih =>
        intro q hqueue hclosed hphase
        have hadvance : q.advance = q.receive := by rw [advance, hphase]
        rcases receive_cons hqueue with ⟨hwrote, hqueue⟩ | ⟨e, hfailed⟩
        · have hsettle : q.advance.advance = q.receive.settle := by rw [advance, hadvance, hwrote]
          obtain ⟨n, hn⟩ := ih q.advance.advance (by rw [hsettle, settle]; split <;> exact hqueue)
            (by simpa using hclosed) (by rw [hsettle, settle]; split <;> rfl)
          exact ⟨n + 2, hn⟩
        · exact ⟨1, Or.inr ⟨e, by rw [advanceBy, advanceBy, hadvance, hfailed]⟩⟩
  cases hphase : p.phase with
  | waiting => exact hwaiting p.queue p rfl hclosed hphase
  | wrote =>
      have hsettle : p.advance = p.settle := by rw [advance, hphase]
      obtain ⟨n, hn⟩ := hwaiting p.queue p.advance (by rw [hsettle, settle]; split <;> rfl)
        (by simpa using hclosed) (by rw [hsettle, settle]; split <;> rfl)
      exact ⟨n + 1, hn⟩
  | finished => exact ⟨0, Or.inl hphase⟩
  | failed e => exact ⟨0, Or.inr ⟨e, hphase⟩⟩

/-- Whatever the producer and the pump do in turns, and wherever the sink stops taking bytes:
a pump that finishes has written the frames of all messages; one that fails has taken one
message more than it has written, of which the sink holds a beginning; in both cases the far
side reads just the messages that were written.  While the pump waits for a message, everything
is flushed, and it comes to an end once the channel is closed. -/
theorem run_delivers (limit : Option ℕ) (writes : ℕ → ℕ) (hwrites : ∀ k, 0 < writes k)
    (moves : List Move) :
    let p := (start (.empty limit writes)).run moves
    (p.phase = .finished →
      p.sent = (put moves).length ∧ p.sink.contents.toList = bytesOf (put moves)) ∧
    (∀ e, p.phase = .failed e →
      ∃ m cut, (put moves)[p.sent]? = some m ∧ p.queue = (put moves).drop (p.sent + 1) ∧
        p.sink.contents.toList = bytesOf ((put moves).take p.sent) ++ cut ∧
        cut <+: bytes m ∧ cut ≠ bytes m) ∧
    (p.Done → ∀ reads : ℕ → ℕ, (∀ k, 0 < reads k) →
      (readAll (.ofBytes p.sink.contents.toList reads)).messages = (put moves).take p.sent) ∧
    (p.phase = .waiting → p.queue = [] → p.closed = false → p.Flushed) ∧
    (p.closed → ∃ n, (p.advanceBy n).Done) := by
  intro p
  obtain ⟨written, torn, cut, h⟩ := (accounted_start limit hwrites).run moves
  change p.Account (put moves) written torn cut at h
  refine ⟨?_, ?_, fun _ reads hreads => h.readAll_messages hreads,
    fun hphase hqueue _ => h.flushed hphase hqueue, fun hclosed => exists_done hclosed⟩
  · intro hphase
    obtain ⟨rfl, rfl⟩ := h.whole (by rw [hphase]; exact nofun)
    have hmessages := h.messages
    have hcontents := h.contents
    rw [(h.drained hphase).1, List.append_nil, List.append_nil] at hmessages
    rw [hmessages]
    exact ⟨h.sent, by rw [hcontents, List.append_nil]⟩
  · intro e hphase
    obtain ⟨m, hm, hqueue, hbegin, hne⟩ := h.of_failed hphase
    exact ⟨m, cut, hm, hqueue, by rw [h.contents, h.take_sent], hbegin, hne⟩

/-- A sink that takes twenty bytes in threes holds a frame of sixteen and a beginning of the
next; without a limit the pump waits with everything flushed, and finishes once it is closed. -/
theorem run_delivers_twenty :
    let full := (start (.empty (some 20) fun _ => 3)).run
      [.send (.removed ⟨⟨1⟩⟩), .send (.removed ⟨⟨2⟩⟩), .advance, .send (.removed ⟨⟨3⟩⟩),
        .advance, .advance]
    let idle := (start (.empty none fun _ => 3)).run [.send (.removed ⟨⟨1⟩⟩), .advance, .advance]
    let ended := (start (.empty none fun _ => 3)).run
      [.send (.removed ⟨⟨1⟩⟩), .advance, .close, .send (.removed ⟨⟨2⟩⟩), .advance, .advance]
    (full.phase = .failed .sinkFull ∧ full.queue = [.removed ⟨⟨3⟩⟩] ∧
      (readAll (.ofBytes full.sink.contents.toList fun _ => 2)).messages = [.removed ⟨⟨1⟩⟩]) ∧
    (idle.phase = .waiting ∧ idle.Flushed) ∧
    (ended.phase = .finished ∧ ended.sent = 1 ∧
      ended.sink.contents.toList = bytesOf [.removed ⟨⟨1⟩⟩] ∧ ∃ n, (ended.advanceBy n).Done) := by
  intro full idle ended
  have hpos (n k : ℕ) : 0 < n + 1 := Nat.succ_pos n
  have hfull := run_delivers (some 20) (fun _ => 3) (hpos 2)
    [.send (.removed ⟨⟨1⟩⟩), .send (.removed ⟨⟨2⟩⟩), .advance, .send (.removed ⟨⟨3⟩⟩),
      .advance, .advance]
  have hidle := run_delivers none (fun _ => 3) (hpos 2)
    [.send (.removed ⟨⟨1⟩⟩), .advance, .advance]
  have hended := run_delivers none (fun _ => 3) (hpos 2)
    [.send (.removed ⟨⟨1⟩⟩), .advance, .close, .send (.removed ⟨⟨2⟩⟩), .advance, .advance]
  have hfailed : full.phase = .failed .sinkFull := by decide +kernel
  have hsent : full.sent = 1 := by decide +kernel
  have hwaiting : idle.phase = .waiting := by decide +kernel
  have hfinished : ended.phase = .finished := by decide +kernel
  refine ⟨⟨hfailed, ?_, ?_⟩, ⟨hwaiting, ?_⟩, hfinished, ?_, ?_, ?_⟩
  · obtain ⟨m, cut, -, hqueue, -⟩ := hfull.2.1 .sinkFull hfailed
    change full.queue = _ at hqueue
    rw [hqueue]
    change List.drop (full.sent + 1) _ = _
    rw [hsent]
    rfl
  · have hread := hfull.2.2.1 (Or.inr ⟨_, hfailed⟩) (fun _ => 2) (hpos 1)
    change _ = List.take full.sent _ at hread
    rwa [hsent] at hread
  · exact hidle.2.2.2.1 hwaiting (by decide +kernel) (by decide +kernel)
  · exact (hended.1 hfinished).1
  · exact (hended.1 hfinished).2
  · exact hended.2.2.2.2 (by decide +kernel)

end AppearanceSync.Pump
