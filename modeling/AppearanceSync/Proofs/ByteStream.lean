import AppearanceSync.ByteStream.Sink
import AppearanceSync.ByteStream.Source
import Mathlib.Data.List.Basic

/-!
# What arrives does not depend on the portions

A source that yields something in every call until it ends is read like the list of its
bytes, and a sink that takes something in every call until it is full is written like a
list with a bound.  So of the calls only their number is left open here.
-/

namespace AppearanceSync.ByteStream

/-! ## Sources -/

namespace Source

variable {s t : Source} {n : ℕ}

/-- Every call yields something until the source ends. -/
def Flowing (s : Source) : Prop := ∀ k, 0 < s.portion k

/-- The second source is the first after some calls that yield `n` bytes together. -/
def After (s : Source) (n : ℕ) (t : Source) : Prop :=
  ∃ calls, t = { s with rest := s.rest.drop n, calls }

theorem After.flowing (ht : s.After n t) (h : s.Flowing) : t.Flowing := by
  obtain ⟨calls, rfl⟩ := ht
  exact h

theorem After.rest_eq (ht : s.After n t) : t.rest = s.rest.drop n := by
  obtain ⟨calls, rfl⟩ := ht
  rfl

theorem After.trans {u : Source} {k : ℕ} (ht : s.After n t) (hu : t.After k u) :
    s.After (n + k) u := by
  obtain ⟨calls, rfl⟩ := ht
  obtain ⟨calls', rfl⟩ := hu
  exact ⟨calls', by rw [List.drop_drop]⟩

theorem yielded_eq (s : Source) (n : ℕ) :
    s.yielded n = min (min (s.portion s.calls) n) s.rest.length := by
  rw [yielded, List.length_take]

theorem readExact_step (hn : n ≠ 0) (hyielded : s.yielded n ≠ 0) :
    s.readExact n =
      (((s.advance (s.yielded n)).readExact (n - s.yielded n)).1,
        ((s.advance (s.yielded n)).readExact (n - s.yielded n)).2.map
          (s.rest.take (s.yielded n) ++ ·)) := by
  rw [readExact, if_neg hn, if_neg hyielded]

/-- If there are enough bytes, the first of them are read. -/
theorem readExact_of_le (h : s.Flowing) (hle : n ≤ s.rest.length) :
    ∃ t, s.After n t ∧ s.readExact n = (t, some (s.rest.take n)) := by
  induction s, n using readExact.induct with
  | case1 s => exact ⟨s, ⟨s.calls, rfl⟩, by rw [readExact, if_pos rfl, List.take_zero]⟩
  | case2 s n hn k hk =>
      have hportion := h s.calls
      have hyielded : k = _ := s.yielded_eq n
      omega
  | case3 s n hn k hk after more hread ih =>
      have hkn : k + (n - k) = n := by
        have hyielded : k = _ := s.yielded_eq n
        omega
      have hrest : n - k ≤ (s.advance k).rest.length := by
        rw [advance, List.length_drop]
        omega
      obtain ⟨t, ⟨calls, ht⟩, hmore⟩ := ih h hrest
      refine ⟨t, ⟨calls, ?_⟩, ?_⟩
      · rw [ht, advance, List.drop_drop, hkn]
      · rw [readExact_step hn hk, hmore, Option.map_some, advance, ← List.take_add, hkn]

/-- If there are not, the read fails. -/
theorem readExact_of_lt (h : s.Flowing) (hlt : s.rest.length < n) :
    ∃ t, s.readExact n = (t, none) := by
  induction s, n using readExact.induct with
  | case1 s => exact absurd hlt (Nat.not_lt_zero _)
  | case2 s n hn k hk => exact ⟨s.advance 0, by rw [readExact, if_neg hn, if_pos hk]⟩
  | case3 s n hn k hk after more hread ih =>
      have hrest : (s.advance k).rest.length < n - k := by
        have hyielded : k = _ := s.yielded_eq n
        rw [advance, List.length_drop]
        omega
      obtain ⟨t, hmore⟩ := ih h hrest
      exact ⟨t, by rw [readExact_step hn hk, hmore, Option.map_none]⟩

/-- What is read is gone from the source, whatever the portions are. -/
theorem length_rest_of_readExact (s : Source) (n : ℕ) :
    ∀ t bytes, s.readExact n = (t, some bytes) → t.rest.length + n = s.rest.length := by
  induction s, n using readExact.induct with
  | case1 s =>
      intro t bytes h
      rw [readExact, if_pos rfl] at h
      obtain ⟨rfl, -⟩ := Prod.mk.inj h
      rfl
  | case2 s n hn k hk =>
      intro t bytes h
      rw [readExact, if_neg hn, if_pos hk] at h
      cases (Prod.mk.inj h).2
  | case3 s n hn k hk after more hread ih =>
      intro t bytes h
      rw [readExact_step hn hk] at h
      generalize hrec : (s.advance (s.yielded n)).readExact (n - s.yielded n) = result at h
      obtain ⟨u, later⟩ := result
      obtain ⟨rfl, hlater⟩ := Prod.mk.inj h
      obtain ⟨bytes', rfl, -⟩ := Option.map_eq_some_iff.mp hlater
      have hrest : u.rest.length + (n - k) = s.rest.length - k :=
        (ih u bytes' hrec).trans List.length_drop
      have hyielded : k = _ := s.yielded_eq n
      change u.rest.length + n = _
      omega

end Source

/-! ## Sinks -/

namespace Sink

variable {s : Sink} {bytes : List UInt8}

/-- Every call takes something until the limit is reached. -/
def Flowing (s : Sink) : Prop := ∀ k, 0 < s.portion k

theorem allowed_prefix (s : Sink) (bytes : List UInt8) : s.allowed bytes <+: bytes := by
  rw [allowed]
  split
  · exact List.prefix_refl _
  · exact List.take_prefix _ _

/-- What a call takes stands at the front, and all of it is allowed. -/
theorem accepted_eq_take (s : Sink) (bytes : List UInt8) :
    s.accepted bytes = bytes.take (s.accepted bytes).length :=
  List.prefix_iff_eq_take.mp ((s.allowed_prefix _).trans (List.take_prefix _ _))

theorem size_append (contents : Array UInt8) (bytes : List UInt8) :
    (contents ++ bytes).size = contents.size + bytes.length := by
  rw [← Array.length_toList, Array.toList_appendList, List.length_append, Array.length_toList]

theorem append_append (contents : Array UInt8) (a b : List UInt8) :
    contents ++ a ++ b = contents ++ (a ++ b) := by
  rw [← Array.toList_inj]
  simp only [Array.toList_appendList, List.append_assoc]

/-- What is allowed is what a call takes and what is allowed after it. -/
theorem allowed_eq_append (s : Sink) (bytes : List UInt8) :
    s.allowed bytes = s.accepted bytes ++
      (s.take (s.accepted bytes)).allowed (bytes.drop (s.accepted bytes).length) := by
  have hfront := s.accepted_eq_take bytes
  cases hlimit : s.limit with
  | none =>
      simp only [allowed, take, hlimit]
      nth_rewrite 1 [hfront]
      exact (List.take_append_drop _ _).symm
  | some limit =>
      have hroom : (s.accepted bytes).length ≤ limit - s.contents.size := by
        simp only [accepted, allowed, hlimit, List.length_take]
        omega
      have hsum : (s.accepted bytes).length +
          (limit - (s.contents.size + (s.accepted bytes).length)) = limit - s.contents.size := by
        omega
      simp only [allowed, take, hlimit, size_append]
      nth_rewrite 1 [hfront]
      rw [← List.take_add, hsum]

/-- A call takes nothing only where nothing is allowed. -/
theorem allowed_eq_nil (h : s.Flowing) (hnone : s.accepted bytes = []) :
    s.allowed bytes = [] := by
  have hportion := h s.calls
  have hlength := congrArg List.length hnone
  cases hlimit : s.limit with
  | none =>
      simp only [accepted, allowed, hlimit, List.length_take, List.length_nil] at hlength
      simp only [allowed, hlimit]
      exact List.length_eq_zero_iff.mp (by omega)
  | some limit =>
      simp only [accepted, allowed, hlimit, List.length_take, List.length_nil] at hlength
      simp only [allowed, hlimit]
      apply List.length_eq_zero_iff.mp
      rw [List.length_take]
      omega

/-- As many bytes arrive as the limit allows, and the write succeeds if these are all. -/
theorem writeAll_eq (h : s.Flowing) (bytes : List UInt8) :
    ∃ calls, s.writeAll bytes =
      ({ s with contents := s.contents ++ s.allowed bytes, calls },
        decide (s.allowed bytes = bytes)) := by
  induction s, bytes using writeAll.induct with
  | case1 s =>
      have hnil := List.prefix_nil.mp (s.allowed_prefix [])
      exact ⟨s.calls, by simp [writeAll, hnil]⟩
  | case2 s bytes hbytes hnone =>
      refine ⟨s.calls, ?_⟩
      rw [writeAll, if_neg hbytes, hnone, allowed_eq_nil h hnone]
      simp [Ne.symm hbytes]
  | case3 s bytes hbytes byte more htaken ih =>
      obtain ⟨calls, hrest⟩ := ih h
      have hsplit := s.allowed_eq_append bytes
      have hfront := s.accepted_eq_take bytes
      rw [htaken] at hsplit hfront
      have hwhole : byte :: more ++ bytes.drop (more.length + 1) = bytes := by
        nth_rewrite 1 [hfront]
        exact List.take_append_drop _ _
      have hall : s.allowed bytes = bytes ↔
          (s.take (byte :: more)).allowed (bytes.drop (more.length + 1)) =
            bytes.drop (more.length + 1) := by
        rw [hsplit]
        nth_rewrite 2 [← hwhole]
        exact List.append_right_inj _
      refine ⟨calls, ?_⟩
      rw [writeAll, if_neg hbytes, htaken]
      simp only [hrest, hall]
      rw [hsplit, take, append_append]
      rfl

/-- All bytes arrive where there is no limit. -/
theorem allowed_of_unlimited (h : s.limit = none) (bytes : List UInt8) : s.allowed bytes = bytes := by
  rw [allowed, h]

end Sink
end AppearanceSync.ByteStream
