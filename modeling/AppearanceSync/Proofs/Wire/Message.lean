import AppearanceSync.Proofs.Snapshot
import AppearanceSync.Proofs.Wire.Laws
import AppearanceSync.Wire.Message

/-!
# What the bytes of a message say

Messages are not lawful: two kinds of bytes are read that no message is written as.
The duration of an animation may come with a second or more of nanoseconds, and a
table may list its entries in another order or list an id twice.  `Message.Spelling`
says which bytes are read as a message, and the main statement that all but these two
kinds begin with what the message is written as.
-/

namespace AppearanceSync

open Codec

variable {bytes rest : List UInt8}

/-! ## Tables -/

namespace Snapshot

variable {id : ContentId} {state : WireState} {entries : List (ContentId × WireState)}
  {table : Snapshot}

/-- The bytes of entries in any order and with any repetitions. -/
def listing : Codec (List (ContentId × WireState)) :=
  (ContentId.layout.bytes.pair WireState.layout.bytes).list

/-- All lengths in the entries can be written, and their own number. -/
def Listable (entries : List (ContentId × WireState)) : Prop :=
  entries.length < lengthBound ∧ ∀ e ∈ entries, e.2.Fits

theorem lawful_listing : listing.Lawful Listable :=
  (Lawful.list (Lawful.pair ContentId.total WireState.lawful)).congr fun _ => by simp [Listable]

theorem length_insertEntry_le (id : ContentId) (state : WireState)
    (entries : List (ContentId × WireState)) :
    (insertEntry id state entries).length ≤ entries.length + 1 := by
  induction entries with
  | nil => exact Nat.le_refl _
  | cons e entries ih =>
      rw [insertEntry]
      split
      · exact Nat.le_refl _
      · split
        · exact Nat.succ_le_succ ih
        · exact Nat.le_succ _

/-- A table has no more entries than it was made of, and no others. -/
theorem entries_foldl_insert (entries : List (ContentId × WireState)) (s : Snapshot) :
    (entries.foldl (fun s e => s.insert e.1 e.2) s).entries.length ≤
        entries.length + s.entries.length ∧
      ∀ e ∈ (entries.foldl (fun s e => s.insert e.1 e.2) s).entries,
        e ∈ entries ∨ e ∈ s.entries := by
  induction entries generalizing s with
  | nil => exact ⟨by simp, fun e he => Or.inr he⟩
  | cons f entries ih =>
      obtain ⟨hlength, hmem⟩ := ih (s.insert f.1 f.2)
      have hinsert : (s.insert f.1 f.2).entries.length ≤ s.entries.length + 1 :=
        length_insertEntry_le f.1 f.2 s.entries
      refine ⟨?_, ?_⟩
      · rw [List.foldl_cons, List.length_cons]
        omega
      · intro e he
        rcases hmem e he with he | he
        · exact Or.inl (List.mem_cons_of_mem f he)
        · rcases mem_insertEntry he with rfl | he
          · exact Or.inl List.mem_cons_self
          · exact Or.inr he

theorem Listable.ofList (h : Listable entries) : Listable (ofList entries).entries := by
  obtain ⟨hlength, hmem⟩ := entries_foldl_insert entries empty
  constructor
  · exact Nat.lt_of_le_of_lt hlength h.1
  · intro e he
    exact h.2 e ((hmem e he).resolve_right List.not_mem_nil)

/-- Entries in ascending order are the entries of their table. -/
theorem entries_ofList (h : entries.Pairwise fun a b => a.1.hash < b.1.hash) :
    (Snapshot.ofList entries).entries = entries := by
  have hperm := ofList_perm (pairwise_ne ⟨entries, h⟩)
  exact congrArg Snapshot.entries (eq_of_perm (t := ⟨entries, h⟩) hperm)

theorem ofList_entries (table : Snapshot) : Snapshot.ofList table.entries = table :=
  eq_of_perm (ofList_perm table.pairwise_ne)

/-- Bytes that list entries are read as the table of the entries. -/
theorem decode_eq_ok :
    layout.bytes.decode bytes = .ok (table, rest) ↔
      ∃ entries, Listable entries ∧ Snapshot.ofList entries = table ∧
        bytes = listing.encode entries ++ rest := by
  change (listing.map Snapshot.ofList Snapshot.entries).decode bytes = _ ↔ _
  rw [decode_map_eq_ok]
  constructor
  · rintro ⟨entries, hread, rfl⟩
    obtain ⟨hfits, rfl⟩ := (lawful_listing _ _ _).mp hread
    exact ⟨entries, hfits, rfl, rfl⟩
  · rintro ⟨entries, hfits, rfl, rfl⟩
    exact ⟨entries, lawful_listing.decode_encode hfits rest, rfl⟩

end Snapshot

/-! ## Animations -/

namespace Span

theorem subsecondNanos_lt (s : Span) : s.subsecondNanos < nanosPerSecond :=
  Nat.mod_lt _ (by decide)

theorem ofParts?_parts (s : Span) : ofParts? s.seconds s.subsecondNanos = some s := by
  have hnanos : s.seconds * nanosPerSecond + s.subsecondNanos = s.nanos := by
    rw [seconds, subsecondNanos, Nat.mul_comm]
    exact Nat.div_add_mod s.nanos nanosPerSecond
  rw [ofParts?, hnanos, ofNanos?, dif_pos s.seconds_lt]

/-- The parts of a span are those that it was made of, unless some are carried. -/
theorem parts_of_ofParts? {seconds nanos : ℕ} {s : Span} (h : ofParts? seconds nanos = some s)
    (hlt : nanos < nanosPerSecond) : s.seconds = seconds ∧ s.subsecondNanos = nanos := by
  rw [ofParts?, ofNanos?] at h
  split at h
  · obtain rfl := Option.some.inj h
    have hpos : 0 < nanosPerSecond := by decide
    constructor
    · change (seconds * nanosPerSecond + nanos) / nanosPerSecond = seconds
      rw [Nat.mul_comm, Nat.mul_add_div hpos, Nat.div_eq_of_lt hlt, Nat.add_zero]
    · change (seconds * nanosPerSecond + nanos) % nanosPerSecond = nanos
      rw [Nat.mul_comm, Nat.mul_add_mod, Nat.mod_eq_of_lt hlt]
  · cases h

/-- The bytes of seconds and of nanoseconds, of which there may be any number. -/
def parts : Codec (UInt64 × UInt32) := u64.pair u32

theorem total_parts : parts.Total := total_u64.pair total_u32

/-- The parts that a span is written as. -/
def written (s : Span) : UInt64 × UInt32 := (.ofNat s.seconds, .ofNat s.subsecondNanos)

theorem toNat_written (s : Span) :
    s.written.1.toNat = s.seconds ∧ s.written.2.toNat = s.subsecondNanos := by
  have hbound : nanosPerSecond < UInt32.size := by decide
  exact ⟨UInt64.toNat_ofNat_of_lt s.seconds_lt,
    UInt32.toNat_ofNat_of_lt (Nat.lt_trans s.subsecondNanos_lt hbound)⟩

theorem elim_error_ok_iff {ε α : Type} {o : Option α} {e : ε} {a : α} :
    o.elim (.error e) .ok = Except.ok a ↔ o = some a := by
  cases o <;> simp

theorem bytes_layout :
    layout.bytes = parts.refine
      (fun p => (ofParts? p.1.toNat p.2.toNat).elim (.error .spanOverflow) .ok) written := rfl

/-- Parts that make a span are read, whatever their size. -/
theorem decode_eq_ok {s : Span} :
    layout.bytes.decode bytes = .ok (s, rest) ↔
      ∃ p : UInt64 × UInt32, ofParts? p.1.toNat p.2.toNat = some s ∧
        bytes = parts.encode p ++ rest := by
  rw [bytes_layout, decode_refine_eq_ok]
  refine exists_congr fun p => ?_
  rw [total_parts p bytes rest, true_and, elim_error_ok_iff, and_comm]

end Span

theorem Easing.total : Easing.layout.bytes.Total :=
  Layout.total_names (fun e => by cases e <;> decide) (by decide) (by decide) _

theorem PlayFlags.total : PlayFlags.layout.bytes.Total :=
  total_u32.map (fun _ => rfl) fun _ => rfl

namespace Target

theorem total_entityLayout : entityLayout.bytes.Total :=
  total_u64.map (fun _ => rfl) fun _ => rfl

theorem total_turfLayout : turfLayout.bytes.Total :=
  total_u64.map (fun _ => rfl) fun _ => rfl

theorem total : layout.bytes.Total := by
  refine Layout.lawful_choice (by decide) ?_ ?_
  · intro target rest _
    cases target with
    | entity id =>
        exact ⟨_, rfl, Branch.readBytes_holding total_entityLayout _ _ trivial rest⟩
    | turf id => exact ⟨_, rfl, Branch.readBytes_holding total_turfLayout _ _ trivial rest⟩
  · simp only [List.zipIdx_cons, List.zipIdx_nil, List.forall_mem_cons]
    refine ⟨?_, ?_, by simp⟩
    · exact Branch.exact_holding total_entityLayout (fun _ => rfl) fun _ _ => trivial
    · exact Branch.exact_holding total_turfLayout (fun _ => rfl) fun _ _ => trivial

theorem length_encode (target : Target) : (layout.bytes.encode target).length = 12 := by
  cases target with
  | entity id => exact congrArg (4 + ·) (length_littleEndian 8 id.bits.toNat)
  | turf id => exact congrArg (4 + ·) (length_littleEndian 8 id.number.toNat)

end Target

namespace PlayParams

variable {params : PlayParams}

/-- The bytes of the members after the duration. -/
def others : Codec (Easing × Int32 × PlayFlags × Int32 × Bool) :=
  Easing.layout.bytes.pair (i32.pair (PlayFlags.layout.bytes.pair (i32.pair bool)))

theorem total_others : others.Total :=
  Easing.total.pair <| total_i32.pair <| PlayFlags.total.pair <| total_i32.pair total_bool

/-- What timing is written as after its duration. -/
def tail (params : PlayParams) : List UInt8 :=
  others.encode (params.easing, params.loops, params.flags, params.delayMillis, params.chain)

/-- Bytes are read as timing if they are its own, up to how they give the duration. -/
theorem decode_eq_ok :
    fields.bytes.decode bytes = .ok (params, rest) ↔
      ∃ p : UInt64 × UInt32, Span.ofParts? p.1.toNat p.2.toNat = some params.duration ∧
        bytes = Span.parts.encode p ++ (params.tail ++ rest) := by
  refine Record.decode_bytes_map_eq_ok.trans ?_
  constructor
  · rintro ⟨⟨duration, easing, loops, flags, delayMillis, chain⟩, hread, rfl⟩
    obtain ⟨mid, hspan, hothers⟩ :=
      (decode_pair_eq_ok (c := Span.layout.bytes) (d := others)).mp hread
    obtain ⟨p, hp, rfl⟩ := Span.decode_eq_ok.mp hspan
    obtain ⟨-, rfl⟩ := (total_others _ _ _).mp hothers
    exact ⟨p, hp, rfl⟩
  · rintro ⟨p, hp, rfl⟩
    refine ⟨(params.duration, params.easing, params.loops, params.flags, params.delayMillis,
      params.chain), ?_, rfl⟩
    refine (decode_pair_eq_ok (c := Span.layout.bytes) (d := others)).mpr
      ⟨params.tail ++ rest, Span.decode_eq_ok.mpr ⟨p, hp, rfl⟩, ?_⟩
    exact total_others.decode_encode trivial rest

end PlayParams

namespace Animate

variable {e : Animate}

/-- What an animation is written as up to its duration. -/
def head (e : Animate) : List UInt8 :=
  Target.layout.bytes.encode e.target ++ ContentId.layout.bytes.encode e.appearance

theorem length_head (e : Animate) : e.head.length = 20 := by
  rw [head, List.length_append, Target.length_encode]
  exact congrArg (12 + ·) (length_littleEndian 8 e.appearance.hash.toNat)

theorem encode_eq (e : Animate) :
    layout.bytes.encode e =
      e.head ++ (Span.parts.encode e.params.duration.written ++ e.params.tail) :=
  (List.append_assoc ..).symm

/-- Bytes are read as an animation if they are its own, up to how they give the duration. -/
theorem decode_eq_ok :
    layout.bytes.decode bytes = .ok (e, rest) ↔
      ∃ p : UInt64 × UInt32, Span.ofParts? p.1.toNat p.2.toNat = some e.params.duration ∧
        bytes = e.head ++ (Span.parts.encode p ++ (e.params.tail ++ rest)) := by
  refine Record.decode_map_eq_ok.trans ?_
  constructor
  · rintro ⟨⟨target, id, params⟩, hread, rfl⟩
    obtain ⟨r₁, htarget, hread⟩ := (decode_pair_eq_ok (c := Target.layout.bytes)
      (d := ContentId.layout.bytes.pair PlayParams.fields.bytes)).mp hread
    obtain ⟨r₂, hid, hparams⟩ := decode_pair_eq_ok.mp hread
    obtain ⟨-, rfl⟩ := (Target.total _ _ _).mp htarget
    obtain ⟨-, rfl⟩ := (ContentId.total _ _ _).mp hid
    obtain ⟨p, hp, rfl⟩ := PlayParams.decode_eq_ok.mp hparams
    exact ⟨p, hp, (List.append_assoc ..).symm⟩
  · rintro ⟨p, hp, rfl⟩
    refine ⟨(e.target, e.appearance, e.params), ?_, rfl⟩
    rw [head, List.append_assoc]
    refine (decode_pair_eq_ok (c := Target.layout.bytes)
      (d := ContentId.layout.bytes.pair PlayParams.fields.bytes)).mpr
      ⟨_, Target.total.decode_encode trivial _, ?_⟩
    exact decode_pair_eq_ok.mpr ⟨_, ContentId.total.decode_encode trivial _,
      PlayParams.decode_eq_ok.mpr ⟨p, hp, rfl⟩⟩

end Animate

/-! ## Messages -/

theorem Added.lawful : Added.layout.bytes.Lawful fun e => e.appearance.Fits :=
  Record.lawful_map (Lawful.pair ContentId.total WireState.lawful) (fun _ => rfl) (fun _ => rfl)
    fun _ => by simp

theorem Removed.total : Removed.layout.bytes.Total :=
  Record.total_map ContentId.total (fun _ => rfl) fun _ => rfl

namespace Message

variable {m : Message} {w : List UInt8}

/-- All lengths in the message can be written. -/
def Fits : Message → Prop
  | snapshot table => Snapshot.Listable table.entries
  | added event => event.appearance.Fits
  | removed _ => True
  | animate _ => True

/-- These bytes are read as the message. -/
def Spelling : Message → List UInt8 → Prop
  | snapshot table, w => ∃ entries, Snapshot.Listable entries ∧ Snapshot.ofList entries = table ∧
      w = littleEndian 4 0 ++ Snapshot.listing.encode entries
  | added event, w => event.appearance.Fits ∧ w = (added event).encode
  | removed event, w => w = (removed event).encode
  | animate event, w => ∃ p : UInt64 × UInt32,
      Span.ofParts? p.1.toNat p.2.toNat = some event.params.duration ∧
        w = littleEndian 4 3 ++ (event.head ++ (Span.parts.encode p ++ event.params.tail))

open Branch (readBytes_holding_eq_ok readBytes_holding) in
theorem layout_decode_eq_ok :
    layout.bytes.decode bytes = .ok (m, rest) ↔ ∃ w, m.Spelling w ∧ bytes = w ++ rest := by
  change (tagged _ _ _).decode bytes = _ ↔ _
  rw [decode_tagged_eq_ok]
  constructor
  · rintro ⟨i, mid, arm, -, rfl, harm, hread⟩
    match i, harm with
    | 0, harm =>
        obtain rfl := Option.some.inj harm
        obtain ⟨table, htable, rfl⟩ := readBytes_holding_eq_ok.mp hread
        obtain ⟨entries, hfits, hentries, rfl⟩ := Snapshot.decode_eq_ok.mp htable
        exact ⟨_, ⟨entries, hfits, hentries, rfl⟩, (List.append_assoc ..).symm⟩
    | 1, harm =>
        obtain rfl := Option.some.inj harm
        obtain ⟨event, hevent, rfl⟩ := readBytes_holding_eq_ok.mp hread
        obtain ⟨hfits, rfl⟩ := (Added.lawful _ _ _).mp hevent
        exact ⟨_, ⟨hfits, rfl⟩, (List.append_assoc ..).symm⟩
    | 2, harm =>
        obtain rfl := Option.some.inj harm
        obtain ⟨event, hevent, rfl⟩ := readBytes_holding_eq_ok.mp hread
        obtain ⟨-, rfl⟩ := (Removed.total _ _ _).mp hevent
        exact ⟨_, rfl, (List.append_assoc ..).symm⟩
    | 3, harm =>
        obtain rfl := Option.some.inj harm
        obtain ⟨event, hevent, rfl⟩ := readBytes_holding_eq_ok.mp hread
        obtain ⟨p, hp, rfl⟩ := Animate.decode_eq_ok.mp hevent
        exact ⟨_, ⟨p, hp, rfl⟩, by simp only [List.append_assoc]⟩
  · rintro ⟨w, hw, rfl⟩
    cases m with
    | snapshot table =>
        obtain ⟨entries, hfits, hentries, rfl⟩ := hw
        refine ⟨0, _, _, by decide, List.append_assoc .., rfl, ?_⟩
        exact readBytes_holding_eq_ok.mpr
          ⟨table, Snapshot.decode_eq_ok.mpr ⟨entries, hfits, hentries, rfl⟩, rfl⟩
    | added event =>
        obtain ⟨hfits, rfl⟩ := hw
        refine ⟨1, _, _, by decide, List.append_assoc .., rfl, ?_⟩
        exact readBytes_holding Added.lawful _ _ hfits rest
    | removed event =>
        obtain rfl := hw
        refine ⟨2, _, _, by decide, List.append_assoc .., rfl, ?_⟩
        exact readBytes_holding Removed.total _ _ trivial rest
    | animate event =>
        obtain ⟨p, hp, rfl⟩ := hw
        refine ⟨3, _, _, by decide, List.append_assoc .., rfl, ?_⟩
        simp only [List.append_assoc]
        exact readBytes_holding_eq_ok.mpr ⟨event, Animate.decode_eq_ok.mpr ⟨p, hp, rfl⟩, rfl⟩

theorem decode_eq_ok :
    decode bytes = .ok m ↔ ∃ w rest, m.Spelling w ∧ bytes = w ++ rest := by
  rw [decode]
  cases hread : layout.bytes.decode bytes with
  | error e =>
      constructor
      · intro h
        cases h
      · rintro ⟨w, rest, hw⟩
        rw [layout_decode_eq_ok.mpr ⟨w, hw⟩] at hread
        cases hread
  | ok result =>
      obtain ⟨m', rest⟩ := result
      constructor
      · intro h
        obtain rfl : m' = m := Except.ok.inj h
        obtain ⟨w, hw⟩ := layout_decode_eq_ok.mp hread
        exact ⟨w, rest, hw⟩
      · rintro ⟨w, rest', hw⟩
        rw [layout_decode_eq_ok.mpr ⟨w, hw⟩] at hread
        obtain ⟨rfl, -⟩ := Prod.mk.inj (Except.ok.inj hread)
        rfl

theorem spelling_encode (h : m.Fits) : m.Spelling m.encode := by
  cases m with
  | snapshot table => exact ⟨table.entries, h, table.ofList_entries, rfl⟩
  | added event => exact ⟨h, rfl⟩
  | removed event => rfl
  | animate event =>
      obtain ⟨hseconds, hnanos⟩ := event.params.duration.toNat_written
      refine ⟨event.params.duration.written, ?_, ?_⟩
      · rw [hseconds, hnanos]
        exact event.params.duration.ofParts?_parts
      · exact congrArg (littleEndian 4 3 ++ ·) event.encode_eq

/-- The bytes are those of an animation, of which the duration is given with a second or
more of nanoseconds: that number stands in the four bytes from the thirty-second on. -/
def CarriesNanos (bytes : List UInt8) : Message → Prop
  | animate _ => ∃ nanos rest, u32.decode (bytes.drop 32) = .ok (nanos, rest) ∧
      nanosPerSecond ≤ nanos.toNat
  | _ => False

/-- The bytes are those of a table, of which the ids do not ascend from each entry to the
next: the entries are listed from the fourth byte on. -/
def Unordered (bytes : List UInt8) : Message → Prop
  | snapshot _ => ∃ entries rest, Snapshot.listing.decode (bytes.drop 4) = .ok (entries, rest) ∧
      ¬entries.Pairwise fun a b => a.1.hash < b.1.hash
  | _ => False

theorem encode_prefix_animate_iff {event : Animate} {p : UInt64 × UInt32}
    (hp : Span.ofParts? p.1.toNat p.2.toNat = some event.params.duration) (rest : List UInt8) :
    (animate event).encode <+:
        littleEndian 4 3 ++ (event.head ++ (Span.parts.encode p ++ event.params.tail)) ++ rest ↔
      p.2.toNat < nanosPerSecond := by
  have hencode : (animate event).encode = littleEndian 4 3 ++ (event.head ++
      (Span.parts.encode event.params.duration.written ++ event.params.tail)) :=
    congrArg (littleEndian 4 3 ++ ·) event.encode_eq
  obtain ⟨hseconds, hnanos⟩ := event.params.duration.toNat_written
  rw [hencode]
  constructor
  · rintro ⟨t, ht⟩
    -- both runs begin alike up to the duration, and a duration is written with no carry
    simp only [List.append_assoc, List.append_cancel_left_eq] at ht
    obtain ⟨rfl, -⟩ := Span.total_parts.eq_of_append_eq trivial trivial ht
    rw [hnanos]
    exact event.params.duration.subsecondNanos_lt
  · intro hlt
    obtain ⟨hs, hn⟩ := Span.parts_of_ofParts? hp hlt
    obtain rfl : event.params.duration.written = p :=
      Prod.ext (UInt64.toNat_inj.mp (hseconds.trans hs)) (UInt32.toNat_inj.mp (hnanos.trans hn))
    exact ⟨rest, rfl⟩

/-- The nanoseconds of an animation's duration stand after the thirty-second byte. -/
theorem carriesNanos_animate_iff (event : Animate) (p : UInt64 × UInt32) (tail : List UInt8) :
    (animate event).CarriesNanos
        (littleEndian 4 3 ++ (event.head ++ (Span.parts.encode p ++ tail))) ↔
      nanosPerSecond ≤ p.2.toNat := by
  have hdrop : (littleEndian 4 3 ++ (event.head ++ (Span.parts.encode p ++ tail))).drop 32 =
      u32.encode p.2 ++ tail := by
    have hsplit : littleEndian 4 3 ++ (event.head ++ (Span.parts.encode p ++ tail)) =
        (littleEndian 4 3 ++ event.head ++ u64.encode p.1) ++ (u32.encode p.2 ++ tail) := by
      change _ ++ (_ ++ (u64.encode p.1 ++ u32.encode p.2 ++ tail)) = _
      simp only [List.append_assoc]
    have hlength : (littleEndian 4 3 ++ event.head ++ u64.encode p.1).length = 32 := by
      rw [List.length_append, List.length_append, event.length_head]
      exact congrArg (4 + 20 + ·) (length_littleEndian 8 p.1.toNat)
    rw [hsplit, List.drop_left' hlength]
  rw [CarriesNanos, hdrop, total_u32.decode_encode trivial]
  constructor
  · rintro ⟨nanos, r, hread, hle⟩
    obtain ⟨rfl, -⟩ := Prod.mk.inj (Except.ok.inj hread)
    exact hle
  · intro hle
    exact ⟨p.2, tail, rfl, hle⟩

theorem encode_prefix_snapshot_iff {entries : List (ContentId × WireState)}
    (h : Snapshot.Listable entries) (rest : List UInt8) :
    (snapshot (.ofList entries)).encode <+:
        littleEndian 4 0 ++ Snapshot.listing.encode entries ++ rest ↔
      entries.Pairwise fun a b => a.1.hash < b.1.hash := by
  have hencode : (snapshot (.ofList entries)).encode =
      littleEndian 4 0 ++ Snapshot.listing.encode (Snapshot.ofList entries).entries := rfl
  rw [hencode]
  constructor
  · rintro ⟨t, ht⟩
    simp only [List.append_assoc, List.append_cancel_left_eq] at ht
    obtain ⟨heq, -⟩ := Snapshot.lawful_listing.eq_of_append_eq h.ofList h ht
    rw [← heq]
    exact (Snapshot.ofList entries).ascending
  · intro hascending
    -- a table lists its entries in ascending order, which is the order they came in
    rw [Snapshot.entries_ofList hascending]
    exact ⟨rest, rfl⟩

theorem unordered_snapshot_iff {table : Snapshot} {entries : List (ContentId × WireState)}
    (h : Snapshot.Listable entries) (rest : List UInt8) :
    (snapshot table).Unordered (littleEndian 4 0 ++ Snapshot.listing.encode entries ++ rest) ↔
      ¬entries.Pairwise fun a b => a.1.hash < b.1.hash := by
  have hdrop : (littleEndian 4 0 ++ Snapshot.listing.encode entries ++ rest).drop 4 =
      Snapshot.listing.encode entries ++ rest := by
    rw [List.append_assoc, List.drop_left' (length_littleEndian 4 0)]
  rw [Unordered, hdrop, Snapshot.lawful_listing.decode_encode h]
  constructor
  · rintro ⟨entries', r, hread, hnot⟩
    obtain ⟨rfl, -⟩ := Prod.mk.inj (Except.ok.inj hread)
    exact hnot
  · intro hnot
    exact ⟨entries, rest, rfl, hnot⟩

/-- A message that can be written is read back, whatever follows it.  Bytes that are read
as a message begin with what the message is written as, except exactly where nanoseconds
are carried or a table is not in order. -/
theorem decode_inverts_encode :
    (∀ m : Message, m.Fits → ∀ t, decode (m.encode ++ t) = .ok m) ∧
      ∀ bytes m, decode bytes = .ok m →
        (m.encode <+: bytes ↔ ¬m.CarriesNanos bytes ∧ ¬m.Unordered bytes) := by
  constructor
  · intro m hm t
    exact decode_eq_ok.mpr ⟨m.encode, t, spelling_encode hm, rfl⟩
  · intro bytes m hread
    obtain ⟨w, rest, hw, rfl⟩ := decode_eq_ok.mp hread
    cases m with
    | snapshot table =>
        obtain ⟨entries, hfits, rfl, rfl⟩ := hw
        rw [encode_prefix_snapshot_iff hfits, unordered_snapshot_iff hfits, not_not]
        exact (and_iff_right not_false).symm
    | added event =>
        obtain ⟨-, rfl⟩ := hw
        exact iff_of_true (List.prefix_append _ rest) ⟨not_false, not_false⟩
    | removed event =>
        obtain rfl := hw
        exact iff_of_true (List.prefix_append _ rest) ⟨not_false, not_false⟩
    | animate event =>
        obtain ⟨p, hp, rfl⟩ := hw
        have hcarries := carriesNanos_animate_iff event p (event.params.tail ++ rest)
        rw [encode_prefix_animate_iff hp]
        simp only [List.append_assoc, hcarries, Nat.not_le]
        exact (and_iff_left not_false).symm

/-- A second and a half that is given in nanoseconds alone is read, and written otherwise. -/
theorem decode_inverts_encode_carried :
    let event : Animate :=
      ⟨.entity ⟨7⟩, ⟨9⟩, { PlayParams.standard with duration := .ofMillis 1500 }⟩
    let bytes := littleEndian 4 3 ++
      (event.head ++ (Span.parts.encode (0, 1500000000) ++ event.params.tail))
    decode ((animate event).encode ++ [0]) = .ok (animate event) ∧
      decode bytes = .ok (animate event) ∧ ¬(animate event).encode <+: bytes := by
  intro event bytes
  have hread : decode bytes = .ok (animate event) :=
    decode_eq_ok.mpr ⟨bytes, [], ⟨(0, 1500000000), by decide, rfl⟩, (List.append_nil _).symm⟩
  have hcarries : (animate event).CarriesNanos bytes :=
    (carriesNanos_animate_iff event (0, 1500000000) event.params.tail).mpr (by decide)
  refine ⟨decode_inverts_encode.1 (animate event) trivial [0], hread, ?_⟩
  intro h
  exact ((decode_inverts_encode.2 bytes (animate event) hread).mp h).1 hcarries

end Message
end AppearanceSync
