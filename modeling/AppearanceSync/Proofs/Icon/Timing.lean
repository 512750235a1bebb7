import AppearanceSync.Proofs.Icon.Basic
import Mathlib.Algebra.Order.Ring.Int

/-!
# The timing of an animation

Spans come to an end: a sum of two may be no span, or stop at the longest one.  None of this
shows.  Whether an animation has ended is what a comparison of whole numbers of any size says,
since no time is later than the longest span.  Nor is a later time ever taken from an earlier
one to find what an animation looks like, or a remainder taken by zero.
-/

namespace AppearanceSync

namespace Span

variable {a b s : Span} {n : ℕ}

theorem inRange_iff : n / nanosPerSecond < UInt64.size ↔ n ≤ maxNanos := by
  rw [Nat.div_lt_iff_lt_mul (by decide), maxNanos]
  have hpos : 0 < UInt64.size * nanosPerSecond := by decide
  omega

theorem nanos_le (s : Span) : s.nanos ≤ maxNanos := inRange_iff.mp s.seconds_lt

theorem ofNanos?_eq_some_iff : ofNanos? n = some s ↔ s.nanos = n := by
  by_cases hn : n / nanosPerSecond < UInt64.size
  · simp only [ofNanos?, dif_pos hn, Option.some_inj]
    constructor
    · rintro rfl
      rfl
    · rintro rfl
      rfl
  · simp only [ofNanos?, dif_neg hn, reduceCtorEq, false_iff]
    rintro rfl
    exact hn s.seconds_lt

theorem nanos_ofNanosUpTo (n : ℕ) : (ofNanosUpTo n).nanos = min maxNanos n := by
  by_cases hn : n / nanosPerSecond < UInt64.size
  · rw [ofNanosUpTo, dif_pos hn, min_eq_right (inRange_iff.mp hn)]
  · have hlt : maxNanos < n := lt_of_not_ge (mt inRange_iff.mpr hn)
    rw [ofNanosUpTo, dif_neg hn, min_eq_left hlt.le]

theorem nanos_addUpTo (a b : Span) : (a.addUpTo b).nanos = min maxNanos (a.nanos + b.nanos) :=
  nanos_ofNanosUpTo _

theorem le_addUpTo (a b : Span) : a.nanos ≤ (a.addUpTo b).nanos := by
  rw [nanos_addUpTo]
  exact le_min a.nanos_le (Nat.le_add_right _ _)

/-- The time from the second span to the first, if the first is not the earlier one. -/
def sub? (a b : Span) : Option ℕ := if b.nanos ≤ a.nanos then some (a.nanos - b.nanos) else none

end Span

namespace PlayParams

variable {params : PlayParams} {n : ℕ}

theorem nanos_delay (params : PlayParams) :
    (params.delay.nanos : ℤ) = max params.delayMillis.toInt 0 * 1000000 := by
  have hlt : params.delayMillis.toInt < 2 ^ 31 := params.delayMillis.toInt_lt
  have hin : params.delayMillis.toInt.toNat * 1000000 ≤ Span.maxNanos := by
    have hmax : Span.maxNanos = 18446744073709551615999999999 := by decide
    omega
  rw [delay, Span.ofMillis, Span.nanos_ofNanosUpTo, min_eq_right hin]
  omega

theorem plays?_eq_some_iff :
    params.plays? = some n ↔ 0 ≤ params.loops.toInt ∧ (n : ℤ) = max 1 params.loops.toInt := by
  rw [plays?]
  split_ifs with hneg hzero
  · simp only [false_iff]
    omega
  · rw [Option.some_inj]
    omega
  · rw [Option.some_inj]
    omega

end PlayParams

namespace Play

variable {α : Type} {p : Play α} {last now : Span}

/-- When an animation that does not play for ever ends, in nanoseconds without any bound. -/
def exactEnd (p : Play α) : ℤ :=
  p.start.nanos + max 1 p.params.loops.toInt * p.params.duration.nanos

theorem exactEnd_nonneg (p : Play α) : 0 ≤ p.exactEnd :=
  Int.add_nonneg (Int.natCast_nonneg _) (Int.mul_nonneg (by omega) (Int.natCast_nonneg _))

theorem end?_eq_some_iff :
    p.end? = some last ↔ 0 ≤ p.params.loops.toInt ∧ (last.nanos : ℤ) = p.exactEnd := by
  simp only [end?, PlayParams.total?, Option.bind_eq_some_iff, Span.add?, Span.times?, exactEnd,
    Span.ofNanos?_eq_some_iff, PlayParams.plays?_eq_some_iff]
  constructor
  · rintro ⟨total, ⟨n, ⟨hloops, hn⟩, htotal⟩, hlast⟩
    refine ⟨hloops, ?_⟩
    rw [hlast, htotal, ← hn, mul_comm]
    push_cast
    rfl
  · rintro ⟨hloops, hlast⟩
    obtain ⟨n, hn⟩ : ∃ n : ℕ, (n : ℤ) = max 1 p.params.loops.toInt :=
      ⟨_, Int.toNat_of_nonneg (by omega)⟩
    have hsum : last.nanos = p.start.nanos + p.params.duration.nanos * n := by
      rw [← hn, mul_comm] at hlast
      exact_mod_cast hlast
    -- no part of a span is too long to be one
    have hin : p.params.duration.nanos * n ≤ Span.maxNanos := by
      have hle := last.nanos_le
      omega
    exact ⟨⟨_, Span.inRange_iff.mpr hin⟩, ⟨n, ⟨hloops, hn⟩, rfl⟩, hsum⟩

theorem end?_eq_none_iff :
    p.end? = none ↔ p.params.loops.toInt < 0 ∨ (Span.maxNanos : ℤ) < p.exactEnd := by
  constructor
  · intro hnone
    by_contra hend
    obtain ⟨hloops, hle⟩ := not_or.mp hend
    have hpos := p.exactEnd_nonneg
    have hin : p.exactEnd.toNat ≤ Span.maxNanos := by omega
    have hsome : p.end? = some ⟨_, Span.inRange_iff.mpr hin⟩ := by
      rw [end?_eq_some_iff]
      exact ⟨by omega, Int.toNat_of_nonneg hpos⟩
    rw [hnone] at hsome
    cases hsome
  · intro hend
    by_contra hsome
    obtain ⟨last, hlast⟩ := Option.ne_none_iff_exists'.mp hsome
    obtain ⟨hloops, hexact⟩ := end?_eq_some_iff.mp hlast
    have hle := last.nanos_le
    omega

theorem finished_iff_exact :
    p.finished now = true ↔ 0 ≤ p.params.loops.toInt ∧ p.exactEnd ≤ now.nanos := by
  rw [finished_iff]
  constructor
  · rintro ⟨last, hend, hle⟩
    obtain ⟨hloops, hexact⟩ := end?_eq_some_iff.mp hend
    exact ⟨hloops, by omega⟩
  · rintro ⟨hloops, hle⟩
    have hnow := now.nanos_le
    have hsome : p.end? ≠ none := by
      rw [Ne, end?_eq_none_iff]
      omega
    obtain ⟨last, hend⟩ := Option.ne_none_iff_exists'.mp hsome
    exact ⟨last, hend, by
      have hexact := (end?_eq_some_iff.mp hend).2
      omega⟩

/-! ## Steps that could fail -/

/-- The progress within the present play, where it is an error to take a later time from an
earlier one or a remainder by zero. -/
def progress? (p : Play α) (now : Span) : Option Real32 :=
  let duration := p.params.duration.nanos
  if duration = 0 ∨ p.finished now then some .one
  else do
    let elapsed ← now.sub? p.start
    let played ← if duration = 0 then none else some (elapsed % duration)
    return .ofNat played / .ofNat duration

/-- The look at a time, where it is an error to take a later time from an earlier one or a
remainder by zero. -/
def propertiesAt? (p : Play α) (now : Span) : Option Properties :=
  if now.nanos < p.start.nanos then some p.origin
  else (p.progress? now).map fun t =>
    p.origin.blend p.target.properties (p.params.easing.ease p.params.flags t)

/-- Once an animation has begun to move, no step can fail. -/
theorem progress?_of_le (h : p.start.nanos ≤ now.nanos) : p.progress? now = some (p.progress now) := by
  by_cases hover : p.params.duration.nanos = 0 ∨ p.finished now
  · simp only [progress?, progress, if_pos hover]
  · have hduration : p.params.duration.nanos ≠ 0 := (not_or.mp hover).1
    simp only [progress?, progress, if_neg hover, Span.sub?, if_pos h, if_neg hduration]
    rfl

theorem propertiesAt?_eq (p : Play α) (now : Span) :
    p.propertiesAt? now = some (p.propertiesAt now) := by
  by_cases h : now.nanos < p.start.nanos
  · simp only [propertiesAt?, propertiesAt, if_pos h]
  · simp only [propertiesAt?, propertiesAt, if_neg h, progress?_of_le (Nat.le_of_not_lt h),
      Option.map_some]

end Play

namespace Icon

variable {α : Type} {last : Play α}

theorem le_nextBegin (last : Play α) (now : Span) : now.nanos ≤ (nextBegin last now).nanos := by
  rw [nextBegin]
  split
  · next h => exact h
  · exact Nat.le_refl _

/-- The animation that is started last stands last in the queue, with a delay after the time
when it was asked for or after the end of the one before it. -/
theorem getLast?_animate (icon : Icon α) (target : Picture α) (params : PlayParams) (now : Span) :
    ∃ (origin : Properties) (begins : Span), (icon.animate target params now).queue.getLast? =
      some ⟨origin, target, params, begins.addUpTo params.delay⟩ ∧ now.nanos ≤ begins.nanos := by
  have hreplace : ∃ origin, (icon.replace target params now).queue.getLast? =
      some ⟨origin, target, params, now.addUpTo params.delay⟩ := ⟨_, rfl⟩
  cases hchain : params.chain with
  | false =>
      obtain ⟨origin, hlast⟩ := hreplace
      rw [animate_of_unchained hchain]
      exact ⟨origin, now, hlast, Nat.le_refl _⟩
  | true =>
      cases hlast : icon.queue.getLast? with
      | none =>
          obtain ⟨origin, hlast'⟩ := hreplace
          rw [animate_of_idle (List.getLast?_eq_none_iff.mp hlast)]
          exact ⟨origin, now, hlast', Nat.le_refl _⟩
      | some last =>
          rw [animate_of_chained hchain hlast]
          exact ⟨_, _, List.getLast?_concat, le_nextBegin last now⟩

end Icon

namespace Play

variable {α : Type}

theorem never_finished_iff {p : Play α} :
    (∀ t, ¬p.finished t) ↔ p.params.loops.toInt < 0 ∨ (Span.maxNanos : ℤ) < p.exactEnd := by
  constructor
  · intro hnever
    -- what has not ended by the latest time of all ends later, or not at all
    have hlatest := mt finished_iff_exact.mpr (hnever (.ofNanosUpTo Span.maxNanos))
    rw [Span.nanos_ofNanosUpTo, min_self] at hlatest
    omega
  · intro hlong t hended
    obtain ⟨hloops, hle⟩ := finished_iff_exact.mp hended
    have ht := t.nanos_le
    omega

/-- An animation starts when its delay is over, or at the latest time of all if that is no
time.  It has ended when a count of nanoseconds without any bound says so; so it never ends if
it plays for ever, or to a time that is no time.  To find what it looks like, no later time is
taken from an earlier one, and no remainder by zero.  This is how all animations are timed that
an icon starts. -/
theorem timing_exact (params : PlayParams) (begins now : Span) (origin : Properties)
    (target : Picture α) :
    let p : Play α := ⟨origin, target, params, begins.addUpTo params.delay⟩
    let ends : ℤ := p.start.nanos + max 1 params.loops.toInt * params.duration.nanos
    (p.start.nanos : ℤ) =
        min (Span.maxNanos : ℤ) (begins.nanos + max params.delayMillis.toInt 0 * 1000000) ∧
      (p.finished now = true ↔ 0 ≤ params.loops.toInt ∧ ends ≤ now.nanos) ∧
      ((∀ t, ¬p.finished t) ↔ params.loops.toInt < 0 ∨ (Span.maxNanos : ℤ) < ends) ∧
      p.propertiesAt? now = some (p.propertiesAt now) ∧
      ∀ (icon : Icon α) (called : Span), ∃ (origin : Properties) (begins : Span),
        (icon.animate target params called).queue.getLast? =
            some ⟨origin, target, params, begins.addUpTo params.delay⟩ ∧
          called.nanos ≤ begins.nanos := by
  intro p ends
  refine ⟨?_, finished_iff_exact, never_finished_iff, p.propertiesAt?_eq now, ?_⟩
  · calc
      (p.start.nanos : ℤ) = (min Span.maxNanos (begins.nanos + params.delay.nanos) : ℕ) :=
        congrArg _ (Span.nanos_addUpTo begins params.delay)
      _ = min (Span.maxNanos : ℤ) (begins.nanos + max params.delayMillis.toInt 0 * 1000000) := by
        rw [← params.nanos_delay]
        omega
  · exact fun icon called => icon.getLast?_animate target params called

end Play
end AppearanceSync
