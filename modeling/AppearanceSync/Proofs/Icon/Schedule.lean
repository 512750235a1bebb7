import AppearanceSync.Proofs.Icon.Sampling
import AppearanceSync.Proofs.Icon.Timing
import Mathlib.Data.List.Chain

/-!
# One animation after the other

In the queue of an icon each animation starts from where the one before it leads, and not
before that one has ended.  This is so after any calls at any times, in whatever order the
times are.  So no two animations run at once; between two of them the icon shows where the
first has led; what stands behind an animation without an end is never seen; and at the end
the icon shows, and keeps, the target of the last.
-/

namespace AppearanceSync

variable {α : Type} {t now last : Span}

namespace Play

variable {a b p : Play α}

/-- The second animation starts from where the first leads, and not before that has ended. -/
structure HandsOver (a b : Play α) : Prop where
  origin : b.origin = a.target.properties
  ended : ∀ last, a.end? = some last → last.nanos ≤ b.start.nanos

/-- Whether an animation has started and not ended. -/
def running (p : Play α) (now : Span) : Bool :=
  decide (p.start.nanos ≤ now.nanos) && !p.finished now

/-- The first animation has an end, and the second does not start before it. -/
def Precedes (a b : Play α) : Prop := ∃ last, a.end? = some last ∧ last.nanos ≤ b.start.nanos

theorem start_le_of_end? (h : p.end? = some last) : p.start.nanos ≤ last.nanos := by
  obtain ⟨-, hlast⟩ := end?_eq_some_iff.mp h
  have hlength : 0 ≤ max 1 p.params.loops.toInt * (p.params.duration.nanos : ℤ) :=
    Int.mul_nonneg (by omega) (Int.natCast_nonneg _)
  rw [exactEnd] at hlast
  omega

theorem not_finished_of_lt (h : now.nanos < p.start.nanos) : ¬p.finished now := by
  intro hended
  obtain ⟨last, hlast, hle⟩ := finished_iff.mp hended
  have hstart := start_le_of_end? hlast
  omega

theorem not_finished_of_endless (h : p.end? = none) (now : Span) : ¬p.finished now := by
  intro hended
  obtain ⟨last, hlast, -⟩ := finished_iff.mp hended
  rw [h] at hlast
  cases hlast

theorem Precedes.finished (h : a.Precedes b) (hb : b.start.nanos ≤ now.nanos) :
    a.finished now := by
  obtain ⟨last, hlast, hle⟩ := h
  exact finished_iff.mpr ⟨last, hlast, hle.trans hb⟩

instance : Trans (Precedes (α := α)) Precedes Precedes where
  trans := by
    rintro a b c ⟨last, hlast, hle⟩ ⟨last', hlast', hle'⟩
    have hstart := start_le_of_end? hlast'
    exact ⟨last, hlast, by omega⟩

/-- Where every animation has an end, each of a chain precedes all that stand behind it. -/
theorem pairwise_precedes {queue : List (Play α)} (h : queue.IsChain HandsOver)
    (hends : ∀ p ∈ queue, p.end?.isSome) : queue.Pairwise Precedes := by
  apply List.IsChain.pairwise
  refine h.imp_of_mem_imp fun a b ha _ hab => ?_
  obtain ⟨last, hlast⟩ := Option.isSome_iff_exists.mp (hends a ha)
  exact ⟨last, hlast, hab.ended last hlast⟩

end Play

namespace Icon

open Play (HandsOver pairwise_precedes not_finished_of_lt not_finished_of_endless)

variable {x y icon : Icon α} {shown : Option (Picture α)} {a b p : Play α}
  {queue before behind : List (Play α)} {target : Picture α} {params : PlayParams}

/-! ## Calls at any times -/

/-- A call of an icon: an appearance is assigned, or something is done at a time. -/
inductive Call (α : Type)
  | set (picture : Picture α)
  | act (now : Span) (what : Act α)

/-- The icon afterwards, and what it was seen to show if it was sampled. -/
def call (icon : Icon α) : Call α → Icon α × Option (Option Properties)
  | .set picture => (icon.set picture, none)
  | .act now what => icon.act now what

/-- What the calls of a run are answered. -/
def replies (icon : Icon α) : List (Call α) → List (Option (Option Properties))
  | [] => []
  | c :: calls => (icon.call c).2 :: (icon.call c).1.replies calls

/-- The icon after calls in order, of which the first was made when it showed nothing. -/
def run (calls : List (Call α)) : Icon α := calls.foldl (fun icon c => (icon.call c).1) empty

/-! ## Handing over -/

theorem settleQueue_suffix : (settleQueue now shown queue).queue <:+ queue := by
  induction queue generalizing shown with
  | nil => exact List.suffix_rfl
  | cons p queue ih =>
      by_cases hp : p.finished now
      · rw [settleQueue_cons_of_finished hp]
        exact ih.trans (List.suffix_cons p queue)
      · simp only [settleQueue_cons_of_unfinished hp, List.suffix_rfl]

theorem le_nextBegin_of_end? (h : a.end? = some last) :
    last.nanos ≤ (nextBegin a now).nanos := by
  rw [nextBegin, h, Option.getD_some]
  split
  · exact Nat.le_refl _
  · omega

/-- An animation that chains takes up the one that it stands behind. -/
theorem handsOver_chained (a : Play α) (target : Picture α) (params : PlayParams) (now : Span) :
    a.HandsOver ⟨a.target.properties, target, params, (nextBegin a now).addUpTo params.delay⟩ where
  origin := rfl
  ended _ h := (le_nextBegin_of_end? h).trans (Span.le_addUpTo _ _)

theorem isChain_animate (h : icon.queue.IsChain HandsOver) (target : Picture α)
    (params : PlayParams) (now : Span) :
    (icon.animate target params now).queue.IsChain HandsOver := by
  have hreplace : (icon.replace target params now).queue.IsChain HandsOver :=
    List.isChain_singleton _
  cases hchain : params.chain with
  | false => rwa [animate_of_unchained hchain]
  | true =>
      cases hlast : icon.queue.getLast? with
      | none => rwa [animate_of_idle (List.getLast?_eq_none_iff.mp hlast)]
      | some a =>
          rw [animate_of_chained hchain hlast]
          refine h.append (List.isChain_singleton _) ?_
          intro b hb c hc
          obtain rfl : a = b := Option.some.inj (hlast.symm.trans hb)
          obtain rfl := Option.some.inj hc
          exact handsOver_chained a target params now

theorem isChain_call (h : icon.queue.IsChain HandsOver) (c : Call α) :
    (icon.call c).1.queue.IsChain HandsOver := by
  cases c with
  | set picture => exact h
  | act now what =>
      cases what with
      | start target params => exact isChain_animate h target params now
      | sample => exact h.suffix settleQueue_suffix

theorem isChain_run (calls : List (Call α)) : (run calls).queue.IsChain HandsOver := by
  have key (icon : Icon α) (h : icon.queue.IsChain HandsOver) :
      (calls.foldl (fun icon c => (icon.call c).1) icon).queue.IsChain HandsOver := by
    induction calls generalizing icon with
    | nil => exact h
    | cons c calls ih => exact ih (icon.call c).1 (isChain_call h c)
  exact key empty List.isChain_nil

theorem length_le_one_of_pairwise {β : Type} {R : β → β → Prop} {l : List β} (h : l.Pairwise R)
    (hnone : ∀ a ∈ l, ∀ b ∈ l, ¬R a b) : l.length ≤ 1 := by
  rcases l with _ | ⟨a, _ | ⟨b, rest⟩⟩
  · exact Nat.zero_le 1
  · exact Nat.le_refl 1
  · have hab : R a b := List.rel_of_pairwise_cons h List.mem_cons_self
    exact absurd hab (hnone a (by simp) b (by simp))

/-- No two animations run at once if all of them have an end. -/
theorem length_filter_running_le (h : queue.IsChain HandsOver)
    (hends : ∀ p ∈ queue, p.end?.isSome) (now : Span) :
    (queue.filter (·.running now)).length ≤ 1 := by
  apply length_le_one_of_pairwise ((pairwise_precedes h hends).filter _)
  intro a ha b hb hab
  have ha := (List.mem_filter.mp ha).2
  have hb := (List.mem_filter.mp hb).2
  simp only [Play.running, Bool.and_eq_true, decide_eq_true_eq, Bool.not_eq_true'] at ha hb
  have hended := hab.finished hb.1
  rw [ha.2] at hended
  cases hended

/-- Between two animations the icon shows where the first has led. -/
theorem sample_between (h : icon.queue.IsChain HandsOver)
    (hqueue : icon.queue = before ++ a :: b :: behind) (hbefore : ∀ p ∈ before, p.end?.isSome)
    (ha : a.end? = some last) (hle : last.nanos ≤ t.nanos) (hlt : t.nanos < b.start.nanos) :
    (icon.sample t).2 = some a.target.properties := by
  have hsplit : icon.queue = (before ++ [a]) ++ b :: behind := by simp [hqueue]
  rw [hsplit] at h
  have hfirst : (before ++ [a]).Pairwise Play.Precedes := by
    refine pairwise_precedes h.left_of_append fun p hp => ?_
    rcases List.mem_append.mp hp with hp | hp
    · exact hbefore p hp
    · rw [List.mem_singleton.mp hp, ha]
      rfl
  have hstart := Play.start_le_of_end? ha
  have hended : ∀ p ∈ before ++ [a], p.finished t := by
    intro p hp
    rcases List.mem_append.mp hp with hp | hp
    · have hpa := (List.pairwise_append.mp hfirst).2.2 p hp a (List.mem_singleton_self a)
      exact hpa.finished (hstart.trans hle)
    · rw [List.mem_singleton.mp hp]
      exact Play.finished_iff.mpr ⟨last, ha, hle⟩
  have hab : a.HandsOver b := by
    simpa using h.rel_getLast_head_of_append (by simp) (by simp)
  have hwaits : ¬b.finished t := not_finished_of_lt hlt
  rw [sample, settle, hsplit, settleQueue_append_of_finished hended,
    settleQueue_cons_of_unfinished hwaits]
  change some (b.propertiesAt t) = _
  rw [Play.propertiesAt, if_pos hlt, hab.origin]

/-! ## Behind an animation without an end -/

/-- The icons differ at most in what stands behind an animation without an end. -/
inductive Alike (x y : Icon α) : Prop
  | same (h : x = y)
  | behind (before : List (Play α)) (p : Play α) (rest rest' : List (Play α))
      (hshown : x.shown = y.shown) (hendless : p.end? = none)
      (hx : x.queue = before ++ p :: rest) (hy : y.queue = before ++ p :: rest')

/-- Settling never gets past an animation without an end. -/
theorem exists_settleQueue_endless (hendless : p.end? = none) (now : Span)
    (shown : Option (Picture α)) (before : List (Play α)) :
    ∃ shown' before', before' <:+ before ∧ ∀ rest,
      settleQueue now shown (before ++ p :: rest) = ⟨shown', before' ++ p :: rest⟩ := by
  induction before generalizing shown with
  | nil =>
      refine ⟨shown, [], List.suffix_rfl, fun rest => ?_⟩
      exact settleQueue_cons_of_unfinished (not_finished_of_endless hendless now)
  | cons q before ih =>
      by_cases hq : q.finished now
      · obtain ⟨shown', before', hsuffix, hsettle⟩ := ih (some q.target)
        refine ⟨shown', before', hsuffix.trans (List.suffix_cons q before), fun rest => ?_⟩
        rw [List.cons_append, settleQueue_cons_of_finished hq, hsettle]
      · refine ⟨shown, q :: before, List.suffix_rfl, fun rest => ?_⟩
        exact settleQueue_cons_of_unfinished hq

namespace Alike

theorem shown_eq (h : Alike x y) : x.shown = y.shown := by
  rcases h with rfl | ⟨_, _, _, _, hshown, -, -, -⟩
  · rfl
  · exact hshown

theorem visible_eq (h : Alike x y) (now : Span) : x.visible now = y.visible now := by
  rcases h with rfl | ⟨before, p, rest, rest', -, -, hx, hy⟩
  · rfl
  · rw [visible, visible, hx, hy]
    cases before <;> rfl

theorem settle (h : Alike x y) (now : Span) : Alike (x.settle now) (y.settle now) := by
  rcases h with rfl | ⟨before, p, rest, rest', hshown, hendless, hx, hy⟩
  · exact .same rfl
  · obtain ⟨shown', before', -, hsettle⟩ := exists_settleQueue_endless hendless now x.shown before
    refine .behind before' p rest rest' ?_ hendless ?_ ?_
    · rw [Icon.settle, Icon.settle, hx, hy, ← hshown, hsettle, hsettle]
    · rw [Icon.settle, hx, hsettle]
    · rw [Icon.settle, hy, ← hshown, hsettle]

theorem replace_eq (h : Alike x y) (target : Picture α) (params : PlayParams) (now : Span) :
    x.replace target params now = y.replace target params now := by
  have hsettle := h.settle now
  simp only [replace, sample, hsettle.visible_eq now, hsettle.shown_eq]

theorem animate (h : Alike x y) (target : Picture α) (params : PlayParams) (now : Span) :
    Alike (x.animate target params now) (y.animate target params now) := by
  cases hchain : params.chain with
  | false =>
      rw [animate_of_unchained hchain, animate_of_unchained hchain]
      exact .same (h.replace_eq target params now)
  | true =>
      rcases h with rfl | ⟨before, p, rest, rest', hshown, hendless, hx, hy⟩
      · exact .same rfl
      · -- neither queue is empty, so both animations go to its end
        obtain ⟨a, ha⟩ : ∃ a, x.queue.getLast? = some a := by simp [hx, List.getLast?_cons]
        obtain ⟨b, hb⟩ : ∃ b, y.queue.getLast? = some b := by simp [hy, List.getLast?_cons]
        rw [animate_of_chained hchain ha, animate_of_chained hchain hb, hx, hy]
        exact .behind before p _ _ hshown hendless (List.append_assoc before (p :: rest) _)
          (List.append_assoc before (p :: rest') _)

/-- What stands behind an animation without an end changes no answer, whatever is called. -/
theorem call (h : Alike x y) (c : Call α) :
    (x.call c).2 = (y.call c).2 ∧ Alike (x.call c).1 (y.call c).1 := by
  cases c with
  | set picture =>
      refine ⟨rfl, ?_⟩
      rcases h with rfl | ⟨before, p, rest, rest', -, hendless, hx, hy⟩
      · exact .same rfl
      · exact .behind before p rest rest' rfl hendless hx hy
  | act now what =>
      cases what with
      | start target params => exact ⟨rfl, h.animate target params now⟩
      | sample => exact ⟨congrArg some ((h.settle now).visible_eq now), h.settle now⟩

theorem replies_eq (h : Alike x y) (calls : List (Call α)) : x.replies calls = y.replies calls := by
  induction calls generalizing x y with
  | nil => rfl
  | cons c calls ih =>
      obtain ⟨hreply, hnext⟩ := h.call c
      rw [replies, replies, hreply, ih hnext]

end Alike

/-- As long as an animation without an end is in the queue, what is shown is that animation or
one before it. -/
theorem exists_mem_sample (hqueue : icon.queue = before ++ p :: behind) (hendless : p.end? = none)
    (t : Span) : ∃ q ∈ before ++ [p], (icon.sample t).2 = some (q.propertiesAt t) := by
  obtain ⟨shown', before', hsuffix, hsettle⟩ :=
    exists_settleQueue_endless hendless t icon.shown before
  have hsample : (icon.sample t).2 = visible ⟨shown', before' ++ p :: behind⟩ t := by
    rw [sample, settle, hqueue, hsettle]
  cases before' with
  | nil => exact ⟨p, by simp, hsample⟩
  | cons q before' =>
      have hq : q ∈ before := hsuffix.subset List.mem_cons_self
      exact ⟨q, List.mem_append_left _ hq, hsample⟩

/-! ## The schedule -/

/-- Whatever is called, at whatever times: each animation in the queue starts from where the one
before it leads, and not before that has ended.  So no two run at once if all have an end;
between two of them the icon shows where the first has led, if that and all before it have an
end; what stands behind one without an end is never shown, and no answer to any later calls
depends on it; and when all have ended, the icon shows the last one's target and keeps it, with
nothing left in the queue. -/
theorem queue_hands_over (calls : List (Call α)) :
    let icon := run calls
    icon.queue.IsChain HandsOver ∧
    ((∀ p ∈ icon.queue, p.end?.isSome) → ∀ t, (icon.queue.filter (·.running t)).length ≤ 1) ∧
    (∀ before a b behind last, icon.queue = before ++ a :: b :: behind →
      (∀ p ∈ before, p.end?.isSome) → a.end? = some last →
        ∀ t : Span, last.nanos ≤ t.nanos → t.nanos < b.start.nanos →
          (icon.sample t).2 = some a.target.properties) ∧
    (∀ before p behind, icon.queue = before ++ p :: behind → p.end? = none →
      (∀ t, ∃ q ∈ before ++ [p], (icon.sample t).2 = some (q.propertiesAt t)) ∧
        ∀ later, icon.replies later =
          replies { icon with queue := before ++ [p] } later) ∧
    ∀ last t, icon.queue.getLast? = some last → (∀ p ∈ icon.queue, p.finished t) →
      icon.sample t = (⟨some last.target, []⟩, some last.target.properties) := by
  intro icon
  have hchain : icon.queue.IsChain HandsOver := isChain_run calls
  refine ⟨hchain, length_filter_running_le hchain, ?_, ?_, ?_⟩
  · intro before a b behind last hqueue hbefore ha t hle hlt
    exact sample_between hchain hqueue hbefore ha hle hlt
  · intro before p behind hqueue hendless
    refine ⟨exists_mem_sample hqueue hendless, fun later => ?_⟩
    have halike : Alike icon { icon with queue := before ++ [p] } :=
      .behind before p behind [] rfl hendless hqueue rfl
    exact halike.replies_eq later
  · intro last t hlast hended
    rw [sample, settle_of_finished hended, hlast]
    rfl

/-- Of four animations the second is late and the third has no end: after the first its target
is shown for a while, and the fourth is never seen. -/
theorem queue_hands_over_endless :
    let look (alpha : UInt8) : Picture Unit := ⟨⟨1⟩, { Properties.plain with alpha }, ()⟩
    let late : PlayParams := { PlayParams.standard with chain := true, delayMillis := 50 }
    let endless : PlayParams := { PlayParams.standard with chain := true, loops := -1 }
    let icon := run [.act .zero (.start (look 1) .standard), .act .zero (.start (look 2) late),
      .act .zero (.start (look 3) endless), .act .zero (.start (look 4) late)]
    let first : Play Unit := ⟨.plain, look 1, .standard, .ofMillis 0⟩
    let second : Play Unit := ⟨(look 1).properties, look 2, late, .ofMillis 150⟩
    let third : Play Unit := ⟨(look 2).properties, look 3, endless, .ofMillis 250⟩
    let fourth : Play Unit := ⟨(look 3).properties, look 4, late, .ofMillis 50⟩
    icon.queue = [first, second, third, fourth] ∧
      (icon.sample (.ofMillis 120)).2 = some (look 1).properties ∧
      ∀ later, icon.replies later = replies { icon with queue := [first, second, third] } later := by
  intro look late endless icon first second third fourth
  have hqueue : icon.queue = [first, second, third, fourth] := by
    simp only [icon, first, second, third, fourth, late, endless, look]
    rfl
  have hend : first.end? = some (.ofMillis 100) := by decide
  have hendless : third.end? = none := by decide
  obtain ⟨-, -, hbetween, hnever, -⟩ := queue_hands_over
    [.act .zero (.start (look 1) .standard), .act .zero (.start (look 2) late),
      .act .zero (.start (look 3) endless), .act .zero (.start (look 4) late)]
  refine ⟨hqueue, ?_, (hnever [first, second] third [fourth] hqueue hendless).2⟩
  exact hbetween [] first second [third, fourth] _ hqueue (by simp) hend _ (by decide) (by decide)

end Icon
end AppearanceSync
