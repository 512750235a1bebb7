import AppearanceSync.Proofs.Ledger
import AppearanceSync.Proofs.Registry.Courses

/-!
# Chronicles of a registry

What a registry announces is compared here with what it contains.  Each deed
announces at most one event.  A message is permitted at the ledger of what was
registered before it and leads to the ledger of what is registered after it.  A
joining session captures what is registered.
-/

namespace AppearanceSync

/-- The message that an event is, if it is one. -/
def OutboundEvent.message? : OutboundEvent → Option Message
  | .message m => some m
  | .join _ _ => none

namespace Registry

/-- The wire states of what is registered. -/
def ledger (r : Registry) : Ledger := fun id => (r.find? id).map (·.toState)

/-- The messages among journal entries. -/
def messagesOf (entries : List (OutboundEvent × Registry)) : List Message :=
  entries.filterMap fun e => e.1.message?

/-- Entries that lead from one ledger to another.  Every message is permitted and
comes with a registry that has what the message leads to; every joining session
comes with a registry of which it has captured everything. -/
inductive Chronicle : Ledger → List (OutboundEvent × Registry) → Ledger → Prop
  | nil (K) : Chronicle K [] K
  | message {K m R out entries K'} (permitted : K.Permits m) (ledger : R.ledger = K.apply m)
      (balanced : R.Balanced out) (rest : Chronicle (K.apply m) entries K') :
      Chronicle K ((.message m, R) :: entries) K'
  | join {K session R out entries K'} {held : List Handle} (captured : (held : Multiset Handle) = R.live)
      (ledger : R.ledger = K) (balanced : R.Balanced out) (rest : Chronicle K entries K') :
      Chronicle K ((.join session held, R) :: entries) K'

variable {r r' R : Registry} {a : Handle} {id : ContentId} {out out' : Multiset Handle}
  {d : Deed} {ds : List Deed} {m : Message} {K K' K'' : Ledger}
  {entries before after : List (OutboundEvent × Registry)}

/-! ## Ledgers of registries -/

theorem ledger_eq_of_find?_eq (h : r'.find? = r.find?) : r'.ledger = r.ledger := by
  funext id
  rw [ledger, ledger, h]

@[simp] theorem ledger_announce (r : Registry) (e : OutboundEvent) :
    (r.announce e).ledger = r.ledger :=
  ledger_eq_of_find?_eq (funext (find?_announce r e))

theorem isSome_ledger (r : Registry) (id : ContentId) :
    (r.ledger id).isSome = r.contains id := by
  rw [ledger, Option.isSome_map, contains_eq_isSome_find?]

theorem ledger_register (r : Registry) (a : Handle) :
    (r.register a).ledger = r.ledger.apply (.added ⟨a.id, a.toState⟩) := by
  funext id
  rw [ledger, find?_register, Ledger.apply, Function.update_apply]
  split <;> rfl

theorem ledger_remove (r : Registry) (id : ContentId) :
    (r.remove id).ledger = r.ledger.apply (.removed ⟨id⟩) := by
  funext other
  rw [ledger, find?_remove, Ledger.apply, Function.update_apply]
  split <;> rfl

/-! ## What a deed announces -/

/-- All parts of a new instance are registered, so it may be announced. -/
theorem permits_added (h : r.Balanced (a.parts + out)) (hnew : r.find? a.id = none)
    (hhash : a.id = a.toState.contentId) (hfull : ∀ s ∈ a.slots, s.isFilled = true) :
    r.ledger.Permits (.added ⟨a.id, a.toState⟩) := by
  refine ⟨by simp [ledger, hnew], hhash.symm, ?_⟩
  intro ref href
  rw [Canonical.references_toState hfull, List.mem_map] at href
  obtain ⟨b, hb, rfl⟩ := href
  have hfound := h.find?_of_mem (Multiset.mem_add.mpr (Or.inl (Multiset.mem_coe.mpr hb)))
  simp [ledger, hfound]

/-- No slot of a registered instance holds what loses its last holder. -/
theorem permits_removed (h : r.Balanced (a ::ₘ out)) (hlast : (r.letGo a.key a.id).2 = true) :
    r.ledger.Permits (.removed ⟨a.id⟩) := by
  have hs := h.sound
  rw [outside_cons] at hs
  obtain ⟨e, he, hkey⟩ := hs.entry_of_mem (Multiset.mem_cons_self _ _)
  have hone : e.holders ≤ 1 := by
    rw [letGo_eq_of_entry he hkey] at hlast
    by_contra hmore
    simp [hmore] at hlast
  have hno := hs.no_parent_of_last he hone
  refine ⟨?_, ?_⟩
  · have hfound := h.find?_of_mem (Multiset.mem_cons_self a out)
    simp [ledger, hfound]
  · intro id state hid href
    obtain ⟨b, hb, rfl⟩ := Option.map_eq_some_iff.mp hid
    rw [Canonical.references_toState (hs.full id b hb), List.mem_map] at href
    obtain ⟨c, hc, hce⟩ := href
    refine hno c (Multiset.mem_add.mpr (Or.inr (Multiset.mem_bind.mpr ⟨b, ?_, hc⟩))) hce
    exact Multiset.mem_coe.mpr (mem_live_iff.mpr ⟨id, hb⟩)

/-- The announcement of a legal deed, if there is one, is true of what the deed does. -/
theorem Legal.chronicle (hd : Legal r out d out') (h : r.Balanced out)
    (hrest : Chronicle (r.perform d).ledger entries K') :
    Chronicle r.ledger
      (((r.announced? d).map fun e => (e, r.perform d)).toList ++ entries) K' := by
  have hbalanced := h.perform hd
  cases hd with
  | retain ha =>
      rw [perform, ledger_eq_of_find?_eq (funext (find?_retain r _))] at hrest
      exact hrest
  | @keep a _ hkept =>
      have hledger : (r.perform (.letGo a)).ledger = r.ledger :=
        ledger_eq_of_find?_eq (find?_letGo_of_kept hkept)
      rw [hledger] at hrest
      simpa [announced?, hkept] using hrest
  | @last a _ hlast =>
      have hledger : (r.perform (.letGo a)).ledger = r.ledger.apply (.removed ⟨a.id⟩) := by
        rw [perform, letGo_eq_remove_of_last hlast, ledger_remove]
      rw [hledger] at hrest
      rw [announced?, if_pos hlast]
      exact .message (permits_removed h hlast) hledger hbalanced hrest
  | @register a _ _ hnew hhash hfull =>
      have hledger := ledger_register r a
      rw [perform, hledger] at hrest
      exact .message (permits_added h hnew hhash hfull) hledger hbalanced hrest
  | reuse => exact hrest
  | @animate _ e hfound =>
      have hpermitted : r.ledger.Permits (.animate e) := by
        simpa [Ledger.Permits, ledger] using hfound
      rw [perform, ledger_announce] at hrest
      exact .message hpermitted (ledger_announce r _) hbalanced hrest
  | @join _ session held hcaptured =>
      have hlive : ((r.announce (.join session held)).live : Multiset Handle) = r.live :=
        live_eq_of_find?_eq h.sound.named (funext (find?_announce r _))
      rw [perform, ledger_announce] at hrest
      exact .join (hcaptured.trans hlive.symm) (ledger_announce r _) hbalanced hrest

/-- The journal of a course is a chronicle of what the course does. -/
theorem Course.chronicle (h : Course r out ds r' out') (hr : r.Balanced out) :
    Chronicle r.ledger (r.journal ds) r'.ledger := by
  induction h with
  | refl => exact .nil _
  | step hd _ ih => exact hd.chronicle hr (ih (hr.perform hd))

/-! ## Chronicles -/

theorem Chronicle.append (h : Chronicle K before K') (h' : Chronicle K' after K'') :
    Chronicle K (before ++ after) K'' := by
  induction h with
  | nil => exact h'
  | message hm hledger hbalanced _ ih => exact .message hm hledger hbalanced (ih h')
  | join hheld hledger hbalanced _ ih => exact .join hheld hledger hbalanced (ih h')

theorem Chronicle.split (h : Chronicle K (before ++ after) K'') :
    ∃ K', Chronicle K before K' ∧ Chronicle K' after K'' := by
  induction before generalizing K with
  | nil => exact ⟨K, .nil K, h⟩
  | cons e before ih =>
      cases h with
      | message hm hledger hbalanced hrest =>
          obtain ⟨K', hbefore, hafter⟩ := ih hrest
          exact ⟨K', .message hm hledger hbalanced hbefore, hafter⟩
      | join hheld hledger hbalanced hrest =>
          obtain ⟨K', hbefore, hafter⟩ := ih hrest
          exact ⟨K', .join hheld hledger hbalanced hbefore, hafter⟩

/-- Replaying the messages of a chronicle leads to its last ledger. -/
theorem Chronicle.replay_eq (h : Chronicle K entries K') :
    K.replay (messagesOf entries) = K' := by
  induction h with
  | nil => rfl
  | message _ _ _ _ ih => exact ih
  | join _ _ _ _ ih => exact ih

theorem Chronicle.orderly (h : Chronicle K entries K') : K.Orderly (messagesOf entries) := by
  induction h with
  | nil => trivial
  | message hm _ _ _ ih => exact ⟨hm, ih⟩
  | join _ _ _ _ ih => exact ih

/-- The plain appearance is there at every entry, so its removal is none of them. -/
theorem Chronicle.standard_not_removed (h : Chronicle K entries K') :
    .removed ⟨standard.id⟩ ∉ messagesOf entries := by
  induction h with
  | nil => simp [messagesOf]
  | @message K m R out entries K' _ hledger hbalanced _ ih =>
      intro hmem
      rcases List.mem_cons.mp hmem with rfl | hmem
      · have hfound := congrFun hledger standard.id
        rw [ledger, hbalanced.find?_standard] at hfound
        simp [Ledger.apply] at hfound
      · exact ih hmem
  | join _ _ _ _ ih => exact ih

end Registry
end AppearanceSync
