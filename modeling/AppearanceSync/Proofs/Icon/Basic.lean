import AppearanceSync.Icon

/-!
# Icons that settle

An icon drops the animations at the front of its queue that have ended, and shows what
the last of them led to.  An animation that has ended stays ended, so it does not matter
whether this is done at once or in several steps.
-/

namespace AppearanceSync

variable {α : Type} {t u now : Span}

namespace Play

variable {p : Play α}

theorem finished_iff :
    p.finished now = true ↔ ∃ last, p.end? = some last ∧ last.nanos ≤ now.nanos := by
  rw [finished]
  cases p.end? with
  | none => simp
  | some last => simp

theorem finished_mono (h : p.finished t) (hle : t.nanos ≤ u.nanos) : p.finished u := by
  obtain ⟨last, hend, hlast⟩ := finished_iff.mp h
  exact finished_iff.mpr ⟨last, hend, Nat.le_trans hlast hle⟩

end Play

namespace Icon

variable {icon : Icon α} {shown : Option (Picture α)} {p last : Play α} {queue : List (Play α)}
  {target : Picture α} {params : PlayParams}

/-! ## Settling -/

theorem settleQueue_cons_of_finished (h : p.finished now) :
    settleQueue now shown (p :: queue) = settleQueue now (some p.target) queue := if_pos h

theorem settleQueue_cons_of_unfinished (h : ¬p.finished now) :
    settleQueue now shown (p :: queue) = ⟨shown, p :: queue⟩ := if_neg h

/-- Settling early changes nothing for settling late. -/
theorem settle_settleQueue (hle : t.nanos ≤ u.nanos) :
    (settleQueue t shown queue).settle u = settleQueue u shown queue := by
  induction queue generalizing shown with
  | nil => rfl
  | cons p queue ih =>
      by_cases hp : p.finished t
      · rw [settleQueue_cons_of_finished hp, ih,
          settleQueue_cons_of_finished (Play.finished_mono hp hle)]
      · rw [settleQueue_cons_of_unfinished hp, settle]

theorem settle_settle (icon : Icon α) (hle : t.nanos ≤ u.nanos) :
    (icon.settle t).settle u = icon.settle u := settle_settleQueue hle

/-- Of a queue in which all has ended nothing remains but what the last one led to. -/
theorem settleQueue_append_of_finished (h : ∀ p ∈ queue, p.finished now) (more : List (Play α)) :
    settleQueue now shown (queue ++ more) =
      settleQueue now ((queue.getLast?.map (·.target)).or shown) more := by
  induction queue generalizing shown with
  | nil => rfl
  | cons p queue ih =>
      obtain ⟨hp, hrest⟩ := List.forall_mem_cons.mp h
      rw [List.cons_append, settleQueue_cons_of_finished hp, ih hrest, List.getLast?_cons]
      cases queue.getLast? <;> rfl

theorem settle_append_of_finished (h : ∀ p ∈ icon.queue, p.finished now)
    (more : List (Play α)) :
    ({ icon with queue := icon.queue ++ more } : Icon α).settle now =
      settleQueue now ((icon.queue.getLast?.map (·.target)).or icon.shown) more :=
  settleQueue_append_of_finished h more

theorem settle_of_finished (h : ∀ p ∈ icon.queue, p.finished now) :
    icon.settle now = ⟨(icon.queue.getLast?.map (·.target)).or icon.shown, []⟩ := by
  have hqueue := settle_append_of_finished h []
  rwa [List.append_nil] at hqueue

/-- Where an animation is still to end, the end of the queue stays as it is. -/
theorem settleQueue_append_of_unfinished (h : ¬∀ p ∈ queue, p.finished now)
    (more : List (Play α)) :
    settleQueue now shown (queue ++ more) =
        ⟨(settleQueue now shown queue).shown, (settleQueue now shown queue).queue ++ more⟩ ∧
      (settleQueue now shown queue).queue.getLast? = queue.getLast? := by
  induction queue generalizing shown with
  | nil => exact absurd (fun p hp => absurd hp List.not_mem_nil) h
  | cons p queue ih =>
      by_cases hp : p.finished now
      · have hrest : ¬∀ p ∈ queue, p.finished now :=
          fun hall => h (List.forall_mem_cons.mpr ⟨hp, hall⟩)
        have hqueue : queue ≠ [] := by
          rintro rfl
          exact hrest fun p hp => absurd hp List.not_mem_nil
        obtain ⟨happend, hlast⟩ := @ih (some p.target) hrest
        rw [List.cons_append, settleQueue_cons_of_finished hp, settleQueue_cons_of_finished hp]
        refine ⟨happend, hlast.trans ?_⟩
        rw [List.getLast?_cons_of_ne_nil hqueue]
      · rw [List.cons_append, settleQueue_cons_of_unfinished hp, settleQueue_cons_of_unfinished hp]
        exact ⟨rfl, rfl⟩

theorem settle_append_of_unfinished (h : ¬∀ p ∈ icon.queue, p.finished now)
    (more : List (Play α)) :
    ({ icon with queue := icon.queue ++ more } : Icon α).settle now =
        { icon.settle now with queue := (icon.settle now).queue ++ more } ∧
      (icon.settle now).queue.getLast? = icon.queue.getLast? :=
  settleQueue_append_of_unfinished h more

/-! ## Starting an animation -/

theorem animate_of_unchained (h : params.chain = false) :
    icon.animate target params now = icon.replace target params now := by
  rw [animate, h]

theorem animate_of_idle (h : icon.queue = []) :
    icon.animate target params now = icon.replace target params now := by
  rw [animate, h]
  cases params.chain <;> rfl

theorem animate_of_chained (h : params.chain = true) (hlast : icon.queue.getLast? = some last) :
    icon.animate target params now =
      { icon with
        queue := icon.queue ++ [⟨last.target.properties, target, params,
          (nextBegin last now).addUpTo params.delay⟩] } := by
  rw [animate, h, hlast]

theorem replace_settle (icon : Icon α) (target : Picture α) (params : PlayParams) (now : Span) :
    (icon.settle now).replace target params now = icon.replace target params now := by
  rw [replace, sample, icon.settle_settle (Nat.le_refl _)]
  rfl

/-- What comes behind an animation that has ended may begin at once. -/
theorem nextBegin_of_finished (h : last.finished now) : nextBegin last now = now := by
  obtain ⟨ended, hend, hle⟩ := Play.finished_iff.mp h
  rw [nextBegin, hend, Option.getD_some]
  split
  · next hge =>
      have hsame : ended.nanos = now.nanos := Nat.le_antisymm hle hge
      cases ended
      cases now
      congr
  · rfl

/-- It does not matter whether an icon is settled before an animation is started: one that
chains either stands behind the same animation, or begins where the last one has led. -/
theorem settle_animate (icon : Icon α) (target : Picture α) (params : PlayParams) (now : Span) :
    ((icon.settle now).animate target params now).settle now =
      (icon.animate target params now).settle now := by
  cases hchain : params.chain with
  | false => rw [animate_of_unchained hchain, animate_of_unchained hchain, replace_settle]
  | true =>
      cases hlast : icon.queue.getLast? with
      | none =>
          have hidle : icon.queue = [] := List.getLast?_eq_none_iff.mp hlast
          have hsettle : icon.settle now = icon := by
            rw [settle, hidle, settleQueue, ← hidle]
          rw [hsettle]
      | some last =>
          rw [animate_of_chained hchain hlast]
          by_cases hall : ∀ p ∈ icon.queue, p.finished now
          · have hended : last.finished now := hall last (List.mem_of_getLast? hlast)
            rw [settle_append_of_finished hall, settle_of_finished hall, hlast,
              animate_of_idle rfl, nextBegin_of_finished hended]
            rfl
          · obtain ⟨happend, hsame⟩ := settle_append_of_unfinished hall [_]
            rw [animate_of_chained hchain (hsame.trans hlast), ← happend]
            exact settle_settle _ (Nat.le_refl _)

end Icon
end AppearanceSync
