import AppearanceSync.Proofs.Icon.Basic
import Mathlib.Data.List.Forall2

/-!
# When an icon is sampled

Animations that have ended are put away when the icon is next sampled, or when one is
started that replaces them.  Samples and animations cannot tell when that was: with some of
the samples left out, all others have the same answers.  The invariant is that two icons
settle to the same icon at the time of the last call.

An assignment can tell.  What is assigned while ended animations are still in the queue is
given up for the target of the last of them, as soon as the icon is sampled.
-/

namespace AppearanceSync.Icon

variable {α β : Type} {a b : Icon α} {t now : Span}

/-- What is done to an icon at a time. -/
inductive Act (α : Type)
  | start (target : Picture α) (params : PlayParams)
  | sample

/-- The icon afterwards, and what it was seen to show if it was sampled. -/
def act (icon : Icon α) (now : Span) : Act α → Icon α × Option (Option Properties)
  | .start target params => (icon.animate target params now, none)
  | .sample => ((icon.sample now).1, some (icon.sample now).2)

/-- What the calls of a run are answered. -/
def answers (icon : Icon α) : List (Span × Act α) → List (Option (Option Properties))
  | [] => []
  | (now, a) :: calls => (icon.act now a).2 :: (icon.act now a).1.answers calls

/-- The entries that are marked to be kept. -/
def select : List Bool → List β → List β
  | true :: kept, x :: xs => x :: select kept xs
  | false :: kept, _ :: xs => select kept xs
  | _, _ => []

/-! ## Leaving samples out -/

theorem settle_eq_later (h : a.settle t = b.settle t) (hle : t.nanos ≤ now.nanos) :
    a.settle now = b.settle now := by
  rw [← a.settle_settle hle, h, b.settle_settle hle]

/-- Icons that settle alike answer alike, and settle alike afterwards. -/
theorem act_eq_of_settle_eq (h : a.settle now = b.settle now) (what : Act α) :
    (a.act now what).2 = (b.act now what).2 ∧
      (a.act now what).1.settle now = (b.act now what).1.settle now := by
  cases what with
  | start target params =>
      refine ⟨rfl, ?_⟩
      change (a.animate target params now).settle now = (b.animate target params now).settle now
      rw [← a.settle_animate, h, b.settle_animate]
  | sample =>
      have hsample : a.sample now = b.sample now := by rw [sample, h, sample]
      rw [act, act, hsample]
      exact ⟨rfl, rfl⟩

theorem settle_sample (icon : Icon α) (now : Span) :
    (icon.act now .sample).1.settle now = icon.settle now := icon.settle_settle (Nat.le_refl _)

theorem answers_select_of_settle_eq {kept : List Bool} {calls : List (Span × Act α)}
    (h : a.settle t = b.settle t) (hlater : ∀ call ∈ calls, t.nanos ≤ call.1.nanos)
    (hordered : calls.Pairwise fun first second => first.1.nanos ≤ second.1.nanos)
    (honly : List.Forall₂ (fun keep call => keep = true ∨ call.2 = .sample) kept calls) :
    a.answers (select kept calls) = select kept (b.answers calls) := by
  induction honly generalizing a b t with
  | nil => rfl
  | @cons keep call kept calls hkeep _ ih =>
      obtain ⟨now, what⟩ := call
      obtain ⟨hfirst, hrest⟩ := List.pairwise_cons.mp hordered
      have hnow := settle_eq_later h (hlater _ List.mem_cons_self)
      obtain ⟨hanswer, hafter⟩ := act_eq_of_settle_eq hnow what
      cases keep with
      | true =>
          rw [select, answers, answers, select, hanswer, ih hafter hfirst hrest]
      | false =>
          -- only the second icon is sampled, which does not change what it settles to
          obtain rfl : what = .sample := hkeep.resolve_left Bool.false_ne_true
          rw [select, answers, select]
          exact ih (hnow.trans (b.settle_sample now).symm) hfirst hrest

/-- Whatever samples are left out of a run of animations and samples in the order of time, the
calls that remain are answered as before. -/
theorem answers_select (icon : Icon α) {kept : List Bool} {calls : List (Span × Act α)}
    (hordered : calls.Pairwise fun first second => first.1.nanos ≤ second.1.nanos)
    (honly : List.Forall₂ (fun keep call => keep = true ∨ call.2 = .sample) kept calls) :
    icon.answers (select kept calls) = select kept (icon.answers calls) := by
  cases calls with
  | nil =>
      cases honly
      rfl
  | cons call calls =>
      have hlater : ∀ other ∈ call :: calls, call.1.nanos ≤ other.1.nanos :=
        List.forall_mem_cons.mpr ⟨Nat.le_refl _, (List.pairwise_cons.mp hordered).1⟩
      exact answers_select_of_settle_eq rfl hlater hordered honly

/-- An animation chains behind one that has ended.  In one run the icon was sampled in between,
so that its queue was empty; in the other it was not. -/
theorem answers_select_chained :
    let first : Picture Unit := ⟨⟨1⟩, .plain, ()⟩
    let second : Picture Unit := ⟨⟨2⟩, { Properties.plain with alpha := 55 }, ()⟩
    let chained : PlayParams := { PlayParams.standard with chain := true }
    let calls : List (Span × Act Unit) := [(.zero, .start first .standard),
      (.ofMillis 150, .sample), (.ofMillis 160, .start second chained), (.ofMillis 260, .sample)]
    let kept := [true, false, true, true]
    (calls.Pairwise fun first second => first.1.nanos ≤ second.1.nanos) ∧
      List.Forall₂ (fun keep call => keep = true ∨ call.2 = .sample) kept calls ∧
      Icon.empty.answers (select kept calls) = select kept (Icon.empty.answers calls) ∧
      select kept (Icon.empty.answers calls) = [none, none, some (some second.properties)] := by
  intro first second chained calls kept
  have hordered : calls.Pairwise fun first second => first.1.nanos ≤ second.1.nanos := by decide
  have honly : List.Forall₂ (fun keep call => keep = true ∨ call.2 = .sample) kept calls := by
    simp [calls, kept]
  exact ⟨hordered, honly, answers_select _ hordered honly, by decide⟩

/-! ## Assignments -/

variable {X : Picture α} {us : List Span}

/-- Samples of an icon at these times. -/
def samples (us : List Span) : List (Span × Act α) := us.map fun u => (u, .sample)

theorem answers_samples_of_idle (h : a.queue = []) :
    a.answers (samples us) = us.map fun _ => some (a.shown.map (·.properties)) := by
  have hsample (u : Span) : a.sample u = (a, a.shown.map (·.properties)) := by
    have hsettle : a.settle u = a := by rw [settle, h, settleQueue, ← h]
    rw [sample, hsettle, visible, h]
  induction us with
  | nil => rfl
  | cons u us ih =>
      rw [List.map_cons, samples, List.map_cons, answers, act, hsample]
      exact congrArg _ ih

/-- Once all animations have ended, every sample shows what the last of them has led to; or what
the icon shows anyway if there is none. -/
theorem answers_samples_of_finished (hended : ∀ p ∈ a.queue, p.finished t)
    (hlater : ∀ u ∈ us, t.nanos ≤ u.nanos) :
    a.answers (samples us) = us.map fun _ =>
      some (((a.queue.getLast?.map (·.target)).or a.shown).map (·.properties)) := by
  cases us with
  | nil => rfl
  | cons u us =>
      have hsettle := settle_of_finished fun p hp =>
        Play.finished_mono (hended p hp) (hlater u List.mem_cons_self)
      rw [samples, List.map_cons, answers, act, sample, hsettle]
      exact congrArg _ (answers_samples_of_idle rfl)

/-- All animations of an icon have ended.  If it is sampled and then assigned an appearance, all
samples from then on show that appearance.  If it is assigned one without having been sampled,
they show it only if no animation is left in the queue; else the assignment is lost, and they
show what the last animation has led to. -/
theorem shown_after_assignment (icon : Icon α) (X : Picture α) (t : Span)
    (hended : ∀ p ∈ icon.queue, p.finished t) :
    (∀ us : List Span, ((icon.sample t).1.set X).answers (samples us) =
      us.map fun _ => some (some X.properties)) ∧
    ∀ us : List Span, (∀ u ∈ us, t.nanos ≤ u.nanos) →
      (icon.set X).answers (samples us) = us.map fun _ =>
        some (some ((icon.queue.getLast?.map (·.target)).getD X).properties) := by
  constructor
  · intro us
    refine answers_samples_of_idle (a := (icon.sample t).1.set X) ?_
    change (icon.settle t).queue = []
    rw [settle_of_finished hended]
  · intro us hlater
    rw [answers_samples_of_finished (a := icon.set X) hended hlater]
    change us.map (fun _ => some (((icon.queue.getLast?.map (·.target)).or (some X)).map _)) = _
    cases icon.queue.getLast? <;> rfl

/-- An appearance that is assigned after an animation has ended is not shown. -/
theorem assignment_lost :
    let ghost : Picture Unit := ⟨⟨1⟩, .plain, ()⟩
    let door : Picture Unit := ⟨⟨2⟩, { Properties.plain with alpha := 200 }, ()⟩
    let icon := Icon.empty.animate ghost .standard .zero
    (∀ p ∈ icon.queue, p.finished (.ofMillis 100)) ∧
      ((icon.set door).sample (.ofMillis 150)).2 = some ghost.properties ∧
      ((icon.set door).sample (.ofMillis 150)).2 ≠ some door.properties := by
  decide

/-- The same with and without a sample between the end and the assignment. -/
theorem shown_after_assignment_both :
    let ghost : Picture Unit := ⟨⟨1⟩, .plain, ()⟩
    let door : Picture Unit := ⟨⟨2⟩, { Properties.plain with alpha := 200 }, ()⟩
    let icon := Icon.empty.animate ghost .standard .zero
    (∀ p ∈ icon.queue, p.finished (.ofMillis 100)) ∧
      ((icon.sample (.ofMillis 100)).1.set door).answers (samples [.ofMillis 150]) =
        [some (some door.properties)] ∧
      (icon.set door).answers (samples [.ofMillis 150]) = [some (some ghost.properties)] := by
  intro ghost door icon
  have hended : ∀ p ∈ icon.queue, p.finished (.ofMillis 100) := by decide
  obtain ⟨hsampled, hunsampled⟩ := shown_after_assignment icon door (.ofMillis 100) hended
  exact ⟨hended, hsampled [.ofMillis 150], hunsampled [.ofMillis 150] (by decide)⟩

end AppearanceSync.Icon
