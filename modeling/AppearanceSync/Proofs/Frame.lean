import AppearanceSync.Frame
import AppearanceSync.Proofs.ByteStream
import AppearanceSync.Proofs.Wire.Sizes

/-!
# Streams of frames

Frames that are written one after another are read one after another, however the stream is
split into reads.  A stream that is cut anywhere gives the messages whose frames are whole,
and then ends: cleanly, if less than a length is left after them, and with an error otherwise.
-/

namespace AppearanceSync.Frame

open ByteStream Codec

variable {m : Message} {ms got got' : List Message} {ending ending' : Option FrameError}
  {s t : Source} {sink : Sink} {n : ℕ} {more : List UInt8}

/-! ## Single frames -/

theorem length_bytes (m : Message) : (bytes m).length = 4 + m.encode.length := by
  rw [bytes, ofPayload, List.length_append, length_littleEndian]

/-- Within the limit every length in a message can be counted, so the message is read back. -/
theorem decode_payload (hm : m.encode.length ≤ limit) : Message.decode m.encode = .ok m := by
  have hfits : m.Fits := Message.sized m (hm.trans_lt (by decide : limit < lengthBound))
  exact Message.decode_eq_ok.mpr
    ⟨m.encode, [], Message.spelling_encode hfits, (List.append_nil _).symm⟩

/-- A length within the limit is read back from the four bytes in front of a message. -/
theorem readLittleEndian_header (hm : m.encode.length ≤ limit) (more : List UInt8) :
    readLittleEndian 4 (littleEndian 4 m.encode.length ++ more) =
      .ok (m.encode.length, more) :=
  readLittleEndian_eq_ok.mpr ⟨hm.trans_lt (by decide : limit < 256 ^ 4), rfl⟩

/-- Once the length is read, the rest of a frame is read by its length. -/
theorem exists_read_eq_readPayload (h : s.Flowing) (hm : m.encode.length ≤ limit)
    (hrest : s.rest = littleEndian 4 m.encode.length ++ more) :
    ∃ t, s.After 4 t ∧ t.rest = more ∧ read s = readPayload t m.encode.length := by
  have hlength : 4 ≤ s.rest.length := by
    rw [hrest, List.length_append, length_littleEndian]
    exact Nat.le_add_right 4 _
  obtain ⟨t, ht, hread⟩ := Source.readExact_of_le h hlength
  have hheader : s.rest.take 4 = littleEndian 4 m.encode.length ++ [] := by
    rw [hrest, List.take_left' (length_littleEndian 4 _), List.append_nil]
  refine ⟨t, ht, ?_, ?_⟩
  · rw [ht.rest_eq, hrest, List.drop_left' (length_littleEndian 4 _)]
  · simp only [read, hread, hheader, readLittleEndian_header hm]

/-- A whole frame gives its message and leaves what follows it. -/
theorem read_frame (h : s.Flowing) (hm : m.encode.length ≤ limit)
    (hrest : s.rest = bytes m ++ more) :
    ∃ t, s.After (bytes m).length t ∧ read s = (t, .ok (some m)) := by
  rw [bytes, ofPayload, List.append_assoc] at hrest
  obtain ⟨t, ht, htrest, hread⟩ := exists_read_eq_readPayload h hm hrest
  obtain ⟨u, hu, hpayload⟩ := Source.readExact_of_le (n := m.encode.length) (ht.flowing h) (by
    rw [htrest, List.length_append]
    exact Nat.le_add_right _ _)
  refine ⟨u, ?_, ?_⟩
  · rw [length_bytes]
    exact ht.trans hu
  · rw [htrest, List.take_left' rfl] at hpayload
    rw [hread, readPayload, if_neg (Nat.not_lt.mpr hm), hpayload]
    simp only [decode_payload hm]

/-- A source that ends in front of a frame or within its length has ended cleanly. -/
theorem read_end (h : s.Flowing) (hrest : s.rest.length < 4) :
    ∃ t, read s = (t, .ok none) := by
  obtain ⟨t, hread⟩ := Source.readExact_of_lt h hrest
  exact ⟨t, by rw [read, hread]⟩

/-- A source that ends behind the length of a frame and before the frame does is broken. -/
theorem read_cut (h : s.Flowing) (hm : m.encode.length ≤ limit)
    (hrest : s.rest = (bytes m).take n) (hlength : 4 ≤ n) (hcut : n < (bytes m).length) :
    ∃ t, read s = (t, .error .endedInside) := by
  have hsplit : s.rest = littleEndian 4 m.encode.length ++ m.encode.take (n - 4) := by
    rw [hrest, bytes, ofPayload, List.take_append, length_littleEndian,
      List.take_of_length_le (by rwa [length_littleEndian])]
  obtain ⟨t, ht, htrest, hread⟩ := exists_read_eq_readPayload h hm hsplit
  obtain ⟨u, hpayload⟩ := Source.readExact_of_lt (n := m.encode.length) (ht.flowing h) (by
    rw [length_bytes] at hcut
    rw [htrest, List.length_take]
    omega)
  refine ⟨u, ?_⟩
  rw [hread, readPayload, if_neg (Nat.not_lt.mpr hm), hpayload]

/-- Every message that is read takes at least the bytes of its length. -/
theorem length_rest_of_read (h : read s = (t, .ok (some m))) :
    t.rest.length + 4 ≤ s.rest.length := by
  rw [read] at h
  split at h
  · cases (Prod.mk.inj h).2
  · next u header hheader =>
      have hu := Source.length_rest_of_readExact _ _ _ _ hheader
      split at h
      · next length rest hlength =>
          rw [readPayload] at h
          split at h
          · cases (Prod.mk.inj h).2
          · split at h
            · cases (Prod.mk.inj h).2
            · next v payload hpayload =>
                have hv := Source.length_rest_of_readExact _ _ _ _ hpayload
                split at h
                · obtain ⟨rfl, -⟩ := Prod.mk.inj h
                  omega
                · cases (Prod.mk.inj h).2
      · cases (Prod.mk.inj h).2

/-! ## Repeated reads -/

/-- Reading again and again yields these messages and then stops: cleanly or with an error. -/
inductive Yields : Source → List Message → Option FrameError → Prop
  | ended {s t : Source} (h : read s = (t, .ok none)) : Yields s [] none
  | failed {s t : Source} {e : FrameError} (h : read s = (t, .error e)) : Yields s [] (some e)
  | message {s t : Source} {m : Message} {ms : List Message} {ending : Option FrameError}
      (h : read s = (t, .ok (some m))) (hmore : Yields t ms ending) : Yields s (m :: ms) ending

theorem Yields.unique (h : Yields s got ending) (h' : Yields s got' ending') :
    got = got' ∧ ending = ending' := by
  induction h generalizing got' ending' with
  | ended h =>
      cases h' with
      | ended => exact ⟨rfl, rfl⟩
      | failed h' => cases h.symm.trans h'
      | message h' => cases h.symm.trans h'
  | failed h =>
      cases h' with
      | ended h' => cases h.symm.trans h'
      | failed h' =>
          obtain ⟨rfl, rfl⟩ : _ ∧ _ := by simpa using h.symm.trans h'
          exact ⟨rfl, rfl⟩
      | message h' => cases h.symm.trans h'
  | message h _ ih =>
      cases h' with
      | ended h' => cases h.symm.trans h'
      | failed h' => cases h.symm.trans h'
      | message h' hmore' =>
          obtain ⟨rfl, rfl⟩ : _ ∧ _ := by simpa using h.symm.trans h'
          obtain ⟨rfl, rfl⟩ := ih hmore'
          exact ⟨rfl, rfl⟩

/-- The bound on the number of messages is never what stops the reader. -/
theorem yields_readAll (s : Source) : Yields s (readAll s).messages (readAll s).error := by
  have hfuel (fuel : ℕ) (s : Source) (h : s.rest.length < fuel) :
      Yields s (readAllWithin fuel s).messages (readAllWithin fuel s).error := by
    induction fuel generalizing s with
    | zero => exact absurd h (Nat.not_lt_zero _)
    | succ fuel ih =>
        rw [readAllWithin]
        split
        · next t hread => exact .ended hread
        · next t e hread => exact .failed hread
        · next t m hread =>
            have hrest := length_rest_of_read hread
            exact .message hread (ih t (by omega))
  exact hfuel _ s (Nat.lt_succ_self _)

/-! ## Streams -/

/-- The frames of messages one after another. -/
def bytesOf (ms : List Message) : List UInt8 := ms.flatMap bytes

/-- The messages whose frames lie within the first `n` bytes of the stream. -/
def within (n : ℕ) : List Message → List Message
  | [] => []
  | m :: ms => if (bytes m).length ≤ n then m :: within (n - (bytes m).length) ms else []

theorem bytesOf_cons (m : Message) (ms : List Message) : bytesOf (m :: ms) = bytes m ++ bytesOf ms :=
  List.flatMap_cons

theorem bytesOf_concat (ms : List Message) (m : Message) :
    bytesOf (ms ++ [m]) = bytesOf ms ++ bytes m := by
  rw [bytesOf, List.flatMap_append, List.flatMap_singleton, bytesOf]

theorem within_append (n : ℕ) (ms ms' : List Message) :
    within ((bytesOf ms).length + n) (ms ++ ms') = ms ++ within n ms' := by
  induction ms with
  | nil => rw [bytesOf, List.flatMap_nil, List.length_nil, Nat.zero_add, List.nil_append,
      List.nil_append]
  | cons m ms ih =>
      rw [bytesOf_cons, List.length_append, Nat.add_assoc, List.cons_append, within,
        if_pos (Nat.le_add_right _ _), Nat.add_sub_cancel_left, ih, List.cons_append]

/-- What a cut stream yields, however it is split into reads. -/
theorem yields_cut (h : s.Flowing) (hms : ∀ m ∈ ms, m.encode.length ≤ limit)
    (hrest : s.rest = (bytesOf ms).take n) (hn : n ≤ (bytesOf ms).length) :
    Yields s (within n ms)
      (if n - (bytesOf (within n ms)).length < 4 then none else some .endedInside) := by
  induction ms generalizing s n with
  | nil =>
      obtain rfl : n = 0 := Nat.le_zero.mp hn
      obtain ⟨t, hread⟩ := read_end h (by rw [hrest]; exact Nat.zero_lt_succ 3)
      exact .ended hread
  | cons m ms ih =>
      obtain ⟨hm, hms⟩ := List.forall_mem_cons.mp hms
      rw [bytesOf_cons, List.length_append] at hn
      rw [bytesOf_cons, List.take_append] at hrest
      by_cases hwhole : (bytes m).length ≤ n
      · rw [List.take_of_length_le hwhole] at hrest
        obtain ⟨t, ht, hread⟩ := read_frame h hm hrest
        have hmore := ih (ht.flowing h) hms
          (by rw [ht.rest_eq, hrest, List.drop_left' rfl]) (by omega)
        rw [within, if_pos hwhole, bytesOf_cons, List.length_append, ← Nat.sub_sub]
        exact .message hread hmore
      · have hcut : s.rest = (bytes m).take n := by
          rw [hrest, Nat.sub_eq_zero_of_le (Nat.le_of_not_le hwhole), List.take_zero,
            List.append_nil]
        rw [within, if_neg hwhole]
        change Yields s [] (if n < 4 then _ else _)
        by_cases hlength : n < 4
        · obtain ⟨t, hread⟩ := read_end h (by rw [hcut, List.length_take]; omega)
          rw [if_pos hlength]
          exact .ended hread
        · obtain ⟨t, hread⟩ := read_cut h hm hcut (Nat.not_lt.mp hlength) (Nat.not_le.mp hwhole)
          rw [if_neg hlength]
          exact .failed hread

/-- Whole frames yield their messages, also in front of a frame that is not whole. -/
theorem yields_bytesOf_append {cut : List UInt8} (h : s.Flowing)
    (hms : ∀ m ∈ ms, m.encode.length ≤ limit) (hrest : s.rest = bytesOf ms ++ cut)
    (hcut : cut = [] ∨ ∃ m, m.encode.length ≤ limit ∧ cut <+: bytes m ∧ cut ≠ bytes m) :
    ∃ ending, Yields s ms ending := by
  rcases hcut with rfl | ⟨m, hm, hbegin, hne⟩
  · have hyields := yields_cut h hms (n := (bytesOf ms).length)
      (by rw [hrest, List.append_nil, List.take_length]) (Nat.le_refl _)
    have hwithin := within_append 0 ms []
    rw [Nat.add_zero, List.append_nil, within, List.append_nil] at hwithin
    exact ⟨_, hwithin ▸ hyields⟩
  · have hlt : cut.length < (bytes m).length :=
      Nat.lt_of_le_of_ne hbegin.length_le fun heq => hne (hbegin.eq_of_length heq)
    have hall : ∀ m' ∈ ms ++ [m], m'.encode.length ≤ limit := by
      intro m' hm'
      rcases List.mem_append.mp hm' with hm' | hm'
      · exact hms m' hm'
      · rwa [List.mem_singleton.mp hm']
    have htake : s.rest = (bytesOf (ms ++ [m])).take ((bytesOf ms).length + cut.length) := by
      rw [hrest, bytesOf_concat, List.take_length_add_append, ← List.prefix_iff_eq_take.mp hbegin]
    have hyields := yields_cut h hall htake (by
      rw [bytesOf_concat, List.length_append]
      exact Nat.add_le_add_left hbegin.length_le _)
    rw [within_append, within, if_neg (Nat.not_le.mpr hlt), List.append_nil] at hyields
    exact ⟨_, hyields⟩

/-! ## Writing -/

/-- A sink takes of a frame what its limit allows. -/
theorem write_eq (h : sink.Flowing) (hm : m.encode.length ≤ limit) :
    ∃ calls, write sink m =
      ({ sink with contents := sink.contents ++ sink.allowed (bytes m), calls },
        if sink.allowed (bytes m) = bytes m then .ok () else .error .sinkFull) := by
  obtain ⟨calls, hwrite⟩ := Sink.writeAll_eq h (bytes m)
  refine ⟨calls, ?_⟩
  rw [bytes] at hwrite
  rw [write, if_neg (Nat.not_lt.mpr hm), hwrite, ← bytes]
  by_cases hall : sink.allowed (bytes m) = bytes m
  · rw [decide_eq_true hall, if_pos hall]
  · rw [decide_eq_false hall, if_neg hall]

/-- A message over the limit is refused before anything is written. -/
theorem write_tooLarge (hm : limit < m.encode.length) (sink : Sink) :
    write sink m = (sink, .error (.tooLarge m.encode.length limit)) := by
  rw [write, if_pos hm]

/-- Writes messages one after another, up to the first that cannot be written. -/
def writeEach (sink : Sink) : List Message → Sink × Except FrameError Unit
  | [] => (sink, .ok ())
  | m :: ms =>
    match write sink m with
    | (sink, .ok ()) => writeEach sink ms
    | (sink, .error error) => (sink, .error error)

theorem writeEach_eq (h : sink.Flowing) (hlimit : sink.limit = none)
    (hms : ∀ m ∈ ms, m.encode.length ≤ limit) :
    ∃ calls, writeEach sink ms =
      ({ sink with contents := sink.contents ++ bytesOf ms, calls }, .ok ()) := by
  induction ms generalizing sink with
  | nil => exact ⟨sink.calls, by simp [writeEach, bytesOf]⟩
  | cons m ms ih =>
      obtain ⟨hm, hms⟩ := List.forall_mem_cons.mp hms
      obtain ⟨calls, hwrite⟩ := write_eq h hm
      rw [Sink.allowed_of_unlimited hlimit, if_pos rfl] at hwrite
      let after : Sink := { sink with contents := sink.contents ++ bytes m, calls }
      have hflowing : after.Flowing := h
      obtain ⟨calls', hmore⟩ := ih hflowing hlimit hms
      refine ⟨calls', ?_⟩
      rw [writeEach, hwrite, bytesOf_cons, ← Sink.append_append]
      exact hmore

/-- Messages within the limit are all written, and a stream of their frames that is cut
anywhere yields those whose frames are whole, however it is split into reads.  A message over
the limit is refused before anything is written, and every other frame has a length that the
reader takes. -/
theorem cut_stream_yields :
    (∀ (ms : List Message) (writes reads : ℕ → ℕ), (∀ m ∈ ms, m.encode.length ≤ limit) →
      (∀ k, 0 < writes k) → (∀ k, 0 < reads k) →
      ∃ sink, writeEach (.empty none writes) ms = (sink, .ok ()) ∧
        sink.contents.toList = bytesOf ms ∧
        ∀ n ≤ sink.contents.size, ∀ got ending,
          Yields (.ofBytes (sink.contents.toList.take n) reads) got ending ↔
            got = within n ms ∧
              ending = if n - (bytesOf (within n ms)).length < 4 then none
                else some .endedInside) ∧
    (∀ (sink : Sink) (m : Message), limit < m.encode.length →
      write sink m = (sink, .error (.tooLarge m.encode.length limit))) ∧
    (∀ (sink : Sink) (m : Message),
      (∀ length bound, (write sink m).2 ≠ .error (.tooLarge length bound)) →
      readLittleEndian 4 (bytes m) = .ok (m.encode.length, m.encode) ∧
        m.encode.length ≤ limit) := by
  refine ⟨?_, fun sink m hm => write_tooLarge hm sink, ?_⟩
  · intro ms writes reads hms hwrites hreads
    have hflowing : (Sink.empty none writes).Flowing := hwrites
    obtain ⟨calls, hwritten⟩ := writeEach_eq hflowing rfl hms
    have hcontents : ((#[] : Array UInt8) ++ bytesOf ms).toList = bytesOf ms := by
      rw [Array.toList_appendList, List.nil_append]
    refine ⟨_, hwritten, hcontents, ?_⟩
    intro n hn got ending
    have hyields : Yields (.ofBytes (((#[] : Array UInt8) ++ bytesOf ms).toList.take n) reads)
        (within n ms) _ := yields_cut hreads hms (by rw [hcontents]; rfl) (by
          rwa [← hcontents, Array.length_toList])
    constructor
    · exact fun hgot => hgot.unique hyields
    · rintro ⟨rfl, rfl⟩
      exact hyields
  · intro sink m hwrite
    have hm : m.encode.length ≤ limit :=
      Nat.not_lt.mp fun hlt => hwrite _ _ (congrArg Prod.snd (write_tooLarge hlt sink))
    exact ⟨readLittleEndian_header hm m.encode, hm⟩

/-- A state of very many overlays is over the limit. -/
theorem limit_lt_added (id : ContentId) (s : WireState) (hs : limit ≤ 8 * s.overlays.length) :
    limit < (Message.added ⟨id, s⟩).encode.length := by
  have hencode : (Message.added ⟨id, s⟩).encode = littleEndian 4 1 ++
      (ContentId.layout.bytes.encode id ++ (Properties.layout.bytes.encode s.properties ++
        (ContentId.layout.bytes.list.encode s.overlays ++
          ContentId.layout.bytes.list.encode s.underlays))) := rfl
  have hids : (ContentId.layout.bytes.list.encode s.overlays).length = 8 + 8 * s.overlays.length := by
    rw [length_encode_list, List.map_congr_left fun id _ => ContentId.length_encode id,
      List.map_const', List.sum_replicate_nat, Nat.mul_comm]
  rw [hencode]
  simp only [List.length_append, hids]
  omega

/-- Two frames of sixteen bytes that are written in threes, cut after twenty bytes and read in
twos; a state that is refused; and a frame that the reader takes. -/
theorem cut_stream_yields_twenty :
    let first : Message := .removed ⟨⟨1⟩⟩
    let second : Message := .removed ⟨⟨2⟩⟩
    (∃ sink, writeEach (.empty none fun _ => 3) [first, second] = (sink, .ok ()) ∧
      Yields (.ofBytes (sink.contents.toList.take 20) fun _ => 2) [first] (some .endedInside)) ∧
    (∃ crowded : Message,
      crowded = .added ⟨⟨0⟩, .plain, List.replicate (8 * 1024 * 1024) ⟨0⟩, []⟩ ∧
        write (.empty none fun _ => 3) crowded =
          (.empty none fun _ => 3, .error (.tooLarge crowded.encode.length limit))) ∧
    first.encode.length ≤ limit := by
  intro first second
  have hsmall : ∀ m ∈ [first, second], m.encode.length ≤ limit := by decide
  have hpos (n : ℕ) : 0 < n + 1 := Nat.succ_pos n
  refine ⟨?_, ?_, ?_⟩
  · obtain ⟨sink, hwritten, hcontents, hcuts⟩ :=
      cut_stream_yields.1 [first, second] (fun _ => 3) (fun _ => 2) hsmall
        (fun _ => hpos 2) (fun _ => hpos 1)
    have hsize : sink.contents.size = 32 := by
      rw [← Array.length_toList, hcontents]
      decide
    have hread := hcuts 20 (by rw [hsize]; decide) [first] (some .endedInside)
    exact ⟨sink, hwritten, hread.mpr (by decide)⟩
  · have hover : limit < (Message.added
        ⟨⟨0⟩, .plain, List.replicate (8 * 1024 * 1024) ⟨0⟩, []⟩).encode.length := by
      refine limit_lt_added _ _ ?_
      simp only [List.length_replicate]
      decide
    exact ⟨_, rfl, cut_stream_yields.2.1 _ _ hover⟩
  · refine (cut_stream_yields.2.2 (.empty none fun _ => 3) first fun length bound => ?_).2
    have hflowing : (Sink.empty none fun _ => 3).Flowing := fun _ => hpos 2
    obtain ⟨calls, hwrite⟩ := write_eq hflowing (hsmall first List.mem_cons_self)
    rw [hwrite, Sink.allowed_of_unlimited rfl, if_pos rfl]
    exact nofun

end AppearanceSync.Frame
