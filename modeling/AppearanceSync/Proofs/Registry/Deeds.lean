import AppearanceSync.Proofs.Registry.Soundness

/-!
# Deeds of a registry

Whatever a registry does consists of a few elementary changes, here called
deeds.  For each operation this module lists its deeds in order, and it says
when a deed is legal and what has to be held before and after it.  The journal
of a list of deeds has every announcement together with the registry as it is
right after that announcement was made.
-/

namespace AppearanceSync

/-- An elementary change of a registry. -/
inductive Deed
  | retain (a : Handle)
  | letGo (a : Handle)
  | register (a : Handle)
  /-- A registered instance is counted as found in place of a new one. -/
  | reuse
  | announce (e : OutboundEvent)

namespace Registry

/-- The registry after a deed. -/
def perform (r : Registry) : Deed → Registry
  | .retain a => r.retain a
  | .letGo a => (r.letGo a.key a.id).1
  | .register a => r.register a
  | .reuse => { r with deduplicated := r.deduplicated + 1 }
  | .announce e => r.announce e

/-- What a deed announces. -/
def announced? (r : Registry) : Deed → Option OutboundEvent
  | .letGo a => if (r.letGo a.key a.id).2 then some (.message (.removed ⟨a.id⟩)) else none
  | .register a => some (.message (.added ⟨a.id, a.toState⟩))
  | .announce e => some e
  | .retain _ | .reuse => none

/-- The announcements that deeds make, each with the registry right after it. -/
def journal (r : Registry) : List Deed → List (OutboundEvent × Registry)
  | [] => []
  | d :: ds =>
    ((r.announced? d).map fun e => (e, r.perform d)).toList ++ (r.perform d).journal ds

/-! ## The deeds of each operation -/

mutual

/-- The deeds of giving up a handle. -/
def releaseDeeds (r : Registry) : Handle → List Deed
  | .mk serial id properties overlays underlays =>
    .letGo (.mk serial id properties overlays underlays) ::
      if (r.letGo serial id).2 then
        let r := (r.letGo serial id).1
        r.releaseSlotsDeeds overlays ++ (r.releaseSlots overlays).releaseSlotsDeeds underlays
      else []

/-- The deeds of letting go of what is in slots. -/
def releaseSlotsDeeds (r : Registry) : List (Slot Serial) → List Deed
  | [] => []
  | slot :: slots => r.releaseSlotDeeds slot ++ (r.releaseSlot slot).releaseSlotsDeeds slots

/-- The deeds of letting go of what is in a slot. -/
def releaseSlotDeeds (r : Registry) : Slot Serial → List Deed
  | .pending _ => []
  | .filled a => r.releaseDeeds a

end

/-- The deeds of giving up handles in order. -/
def releaseAllDeeds (r : Registry) : List Handle → List Deed
  | [] => []
  | a :: as => r.releaseDeeds a ++ (r.release a).releaseAllDeeds as

/-- The deeds of interning an appearance of known parts. -/
def internPartsDeeds (r : Registry) (properties : Properties) (overlays underlays : List Handle) :
    List Deed :=
  let candidate := Canonical.ofParts r.nextSerial properties overlays underlays
  match r.find? candidate.id with
  | some a =>
    let r := { r.retain a with deduplicated := r.deduplicated + 1 }
    .retain a :: .reuse ::
      (r.releaseAllDeeds overlays ++ (r.releaseAll overlays).releaseAllDeeds underlays)
  | none => [.register candidate]

mutual

/-- The deeds of interning a tree. -/
def internTreeDeeds (r : Registry) : Descriptor → List Deed
  | ⟨properties, overlays, underlays⟩ =>
    let above := r.internTrees overlays
    let below := above.1.internTrees underlays
    r.internTreesDeeds overlays ++
      (above.1.internTreesDeeds underlays ++ below.1.internPartsDeeds properties above.2 below.2)

/-- The deeds of interning trees in order. -/
def internTreesDeeds (r : Registry) : List Descriptor → List Deed
  | [] => []
  | d :: ds => r.internTreeDeeds d ++ (r.internTree d).1.internTreesDeeds ds

end

/-- The deeds of interning a descriptor, none if it is nested too deeply. -/
def internDeeds (r : Registry) (d : Descriptor) : List Deed :=
  match d.validate r.maxDepth with
  | .error _ => []
  | .ok () => r.internTreeDeeds d

/-- The deeds of interning the end of an animation and announcing the animation. -/
def animateDeeds (r : Registry) (target : Target) (d : Descriptor) (params : PlayParams) :
    List Deed :=
  match (r.intern d).2 with
  | .error _ => r.internDeeds d
  | .ok a => r.internDeeds d ++ [.announce (.message (.animate ⟨target, a.id, params⟩))]

/-- The deeds of letting a session join. -/
def joinDeeds (session : SessionId) (captured : List Handle) : List Deed :=
  captured.map .retain ++ [.announce (.join session captured)]

/-! ## Deeds that announce only what they do -/

end Registry

/-- The deed does not announce a joining session. -/
def Deed.Quiet : Deed → Prop
  | .announce (.join _ _) => False
  | _ => True

/-- The deed announces nothing but the addition or removal of an instance. -/
def Deed.Tacit : Deed → Prop
  | .announce _ => False
  | _ => True

/-- The deed gives up a handle. -/
def Deed.GivesUp : Deed → Prop
  | .letGo _ => True
  | _ => False

theorem Deed.GivesUp.tacit {d : Deed} (h : d.GivesUp) : d.Tacit := by
  cases d with
  | letGo a => trivial
  | _ => exact h.elim

theorem Deed.Tacit.quiet {d : Deed} (h : d.Tacit) : d.Quiet := by
  cases d with
  | announce e => exact h.elim
  | _ => trivial

theorem Deed.quiet_of_tacit {ds : List Deed} (h : ∀ d ∈ ds, d.Tacit) : ∀ d ∈ ds, d.Quiet :=
  fun d hd => (h d hd).quiet

namespace Registry

mutual

theorem givesUp_releaseDeeds (r : Registry) : ∀ (a : Handle), ∀ d ∈ r.releaseDeeds a, d.GivesUp
  | .mk serial id properties overlays underlays, d, h => by
      rw [releaseDeeds, List.mem_cons] at h
      rcases h with rfl | h
      · trivial
      split at h
      · rcases List.mem_append.mp h with h | h
        · exact givesUp_releaseSlotsDeeds _ overlays d h
        · exact givesUp_releaseSlotsDeeds _ underlays d h
      · exact absurd h List.not_mem_nil

theorem givesUp_releaseSlotsDeeds (r : Registry) :
    ∀ (slots : List (Slot Serial)), ∀ d ∈ r.releaseSlotsDeeds slots, d.GivesUp
  | [], d, h => absurd h List.not_mem_nil
  | slot :: slots, d, h => by
      rcases List.mem_append.mp h with h | h
      · exact givesUp_releaseSlotDeeds r slot d h
      · exact givesUp_releaseSlotsDeeds _ slots d h

theorem givesUp_releaseSlotDeeds (r : Registry) :
    ∀ (slot : Slot Serial), ∀ d ∈ r.releaseSlotDeeds slot, d.GivesUp
  | .pending _, _, h => absurd h List.not_mem_nil
  | .filled a, d, h => givesUp_releaseDeeds r a d h

end

/-- To give handles up, nothing else has to be done. -/
theorem givesUp_releaseAllDeeds (r : Registry) (handles : List Handle) :
    ∀ d ∈ r.releaseAllDeeds handles, d.GivesUp := by
  induction handles generalizing r with
  | nil => exact fun d h => absurd h List.not_mem_nil
  | cons a handles ih =>
      intro d h
      rcases List.mem_append.mp h with h | h
      · exact givesUp_releaseDeeds r a d h
      · exact ih (r.release a) d h

theorem tacit_releaseDeeds (r : Registry) (a : Handle) : ∀ d ∈ r.releaseDeeds a, d.Tacit :=
  fun d h => (givesUp_releaseDeeds r a d h).tacit

theorem tacit_releaseAllDeeds (r : Registry) (handles : List Handle) :
    ∀ d ∈ r.releaseAllDeeds handles, d.Tacit :=
  fun d h => (givesUp_releaseAllDeeds r handles d h).tacit

theorem tacit_internPartsDeeds (r : Registry) (properties : Properties)
    (overlays underlays : List Handle) :
    ∀ d ∈ r.internPartsDeeds properties overlays underlays, d.Tacit := by
  intro d h
  rw [internPartsDeeds] at h
  split at h
  · rw [List.mem_cons, List.mem_cons, List.mem_append] at h
    rcases h with rfl | rfl | h | h
    · trivial
    · trivial
    · exact tacit_releaseAllDeeds _ overlays d h
    · exact tacit_releaseAllDeeds _ underlays d h
  · obtain rfl := List.mem_singleton.mp h
    trivial

mutual

theorem tacit_internTreeDeeds (r : Registry) : ∀ (t : Descriptor), ∀ d ∈ r.internTreeDeeds t, d.Tacit
  | ⟨properties, overlays, underlays⟩, d, h => by
      rw [internTreeDeeds, List.mem_append, List.mem_append] at h
      rcases h with h | h | h
      · exact tacit_internTreesDeeds r overlays d h
      · exact tacit_internTreesDeeds _ underlays d h
      · exact tacit_internPartsDeeds _ properties _ _ d h

theorem tacit_internTreesDeeds (r : Registry) :
    ∀ (ts : List Descriptor), ∀ d ∈ r.internTreesDeeds ts, d.Tacit
  | [], d, h => absurd h List.not_mem_nil
  | t :: ts, d, h => by
      rcases List.mem_append.mp h with h | h
      · exact tacit_internTreeDeeds r t d h
      · exact tacit_internTreesDeeds _ ts d h

end

theorem tacit_internDeeds (r : Registry) (t : Descriptor) : ∀ d ∈ r.internDeeds t, d.Tacit := by
  intro d h
  rw [internDeeds] at h
  split at h
  · exact absurd h List.not_mem_nil
  · exact tacit_internTreeDeeds r t d h

theorem tacit_map_retain (handles : List Handle) :
    ∀ d ∈ handles.map Deed.retain, d.Tacit := by
  intro d h
  obtain ⟨a, -, rfl⟩ := List.mem_map.mp h
  trivial

theorem quiet_animateDeeds (r : Registry) (target : Target) (t : Descriptor)
    (params : PlayParams) : ∀ d ∈ r.animateDeeds target t params, d.Quiet := by
  have hintern := Deed.quiet_of_tacit (tacit_internDeeds r t)
  intro d h
  rw [animateDeeds] at h
  split at h
  · exact hintern d h
  · rcases List.mem_append.mp h with h | h
    · exact hintern d h
    · obtain rfl := List.mem_singleton.mp h
      trivial

/-- Quiet deeds announce messages only. -/
theorem journal_of_quiet (r : Registry) {ds : List Deed} (h : ∀ d ∈ ds, d.Quiet) :
    ∀ e ∈ r.journal ds, ∃ m, e.1 = .message m := by
  induction ds generalizing r with
  | nil => exact fun e he => absurd he List.not_mem_nil
  | cons d ds ih =>
      intro e he
      rcases List.mem_append.mp he with he | he
      · have hd := h d (by simp)
        obtain ⟨event, hevent, rfl⟩ := Option.map_eq_some_iff.mp (Option.mem_toList.mp he)
        cases event with
        | message m => exact ⟨m, rfl⟩
        | join session held =>
            cases d with
            | announce event =>
                obtain rfl := Option.some.inj hevent
                exact hd.elim
            | letGo a =>
                rw [announced?] at hevent
                split at hevent <;> simp at hevent
            | retain a => simp [announced?] at hevent
            | register a => simp [announced?] at hevent
            | reuse => simp [announced?] at hevent
      · exact ih (r.perform d) (fun d hd => h d (by simp [hd])) e he

/-- A joining session is announced when everything captured is held. -/
theorem journal_joinDeeds (r : Registry) (hopen : r.outbox.isOpen = true) (session : SessionId)
    (captured : List Handle) :
    r.journal (joinDeeds session captured) =
      [(.join session captured, r.joinWith session captured)] := by
  have key (more : List Handle) : ∀ r : Registry,
      r.journal (more.map .retain ++ [.announce (.join session captured)]) =
        [(.join session captured,
          (more.foldl retain r).announce (.join session captured))] := by
    induction more with
    | nil => intro r; rfl
    | cons a more ih => intro r; exact ih (r.retain a)
  rw [joinWith, if_pos hopen, joinDeeds, key]

/-! ## Legal deeds -/

/-- The handles that callers have before and after a deed that may be done. -/
inductive Legal (r : Registry) : Multiset Handle → Deed → Multiset Handle → Prop
  | retain {a out} (h : r.find? a.id = some a) : Legal r out (.retain a) (a ::ₘ out)
  | keep {a out} (h : (r.letGo a.key a.id).2 = false) : Legal r (a ::ₘ out) (.letGo a) out
  | last {a out} (h : (r.letGo a.key a.id).2 = true) :
      Legal r (a ::ₘ out) (.letGo a) (a.parts + out)
  | register {a out} (hkey : a.key = r.nextSerial) (hnew : r.find? a.id = none)
      (hhash : a.id = a.toState.contentId) (hfull : ∀ s ∈ a.slots, s.isFilled = true) :
      Legal r (a.parts + out) (.register a) (a ::ₘ out)
  | reuse {out} : Legal r out .reuse out
  | animate {out e} (h : (r.find? e.appearance).isSome) :
      Legal r out (.announce (.message (.animate e))) out
  /-- The captured handles pass into the queue. -/
  | join {out session} {captured : List Handle} (h : (captured : Multiset Handle) = r.live) :
      Legal r (captured + out) (.announce (.join session captured)) out

/-- Legal deeds lead from one registry to another. -/
inductive Course : Registry → Multiset Handle → List Deed → Registry → Multiset Handle → Prop
  | refl (r out) : Course r out [] r out
  | step {r out d mid ds r' out'} (h : Legal r out d mid) (rest : Course (r.perform d) mid ds r' out') :
      Course r out (d :: ds) r' out'

variable {r r' r'' : Registry} {out mid out' out'' : Multiset Handle} {d : Deed} {ds ds' : List Deed}

theorem Course.single (h : Legal r out d out') : Course r out [d] (r.perform d) out' :=
  .step h (.refl _ _)

theorem Course.append (h : Course r out ds r' out') (h' : Course r' out' ds' r'' out'') :
    Course r out (ds ++ ds') r'' out'' := by
  induction h with
  | refl => exact h'
  | step hd _ ih => exact .step hd (ih h')

/-! ## The queue -/

theorem isOpen_announce (r : Registry) (e : OutboundEvent) :
    (r.announce e).outbox.isOpen = r.outbox.isOpen := by
  unfold announce
  split <;> rfl

theorem waiting_announce (hopen : r.outbox.isOpen = true) (e : OutboundEvent) :
    (r.announce e).outbox.waiting.toList = r.outbox.waiting.toList ++ [e] := by
  simp [announce, hopen]

theorem isOpen_perform (r : Registry) (d : Deed) :
    (r.perform d).outbox.isOpen = r.outbox.isOpen := by
  cases d with
  | retain a => rfl
  | letGo a =>
      rw [perform]
      cases hlast : (r.letGo a.key a.id).2 with
      | false => rw [outbox_letGo_of_kept hlast]
      | true =>
          rw [letGo_eq_remove_of_last hlast]
          exact isOpen_announce r _
  | register a => exact isOpen_announce r _
  | reuse => rfl
  | announce e => exact isOpen_announce r e

theorem maxDepth_announce (r : Registry) (e : OutboundEvent) :
    (r.announce e).maxDepth = r.maxDepth := by
  unfold announce
  split <;> rfl

theorem maxDepth_perform (r : Registry) (d : Deed) : (r.perform d).maxDepth = r.maxDepth := by
  cases d with
  | retain a => rfl
  | letGo a =>
      rw [perform, letGo]
      split
      · rfl
      · split_ifs
        · rfl
        · exact maxDepth_announce r _
        · rfl
  | register a => exact maxDepth_announce r _
  | reuse => rfl
  | announce e => exact maxDepth_announce r e

/-- The limit of depth stays what it was at the beginning. -/
theorem Course.maxDepth (h : Course r out ds r' out') : r'.maxDepth = r.maxDepth := by
  induction h with
  | refl => rfl
  | step _ _ ih => rw [ih, maxDepth_perform]

/-- A deed queues what it announces. -/
theorem waiting_perform (hopen : r.outbox.isOpen = true) (d : Deed) :
    (r.perform d).outbox.waiting.toList =
      r.outbox.waiting.toList ++ (r.announced? d).toList := by
  cases d with
  | retain a => simp [perform, announced?, Registry.retain]
  | letGo a =>
      rw [perform, announced?]
      cases hlast : (r.letGo a.key a.id).2 with
      | false => simp [outbox_letGo_of_kept hlast]
      | true =>
          rw [letGo_eq_remove_of_last hlast]
          exact waiting_announce hopen _
  | register a => exact waiting_announce hopen _
  | reuse => simp [perform, announced?]
  | announce e => exact waiting_announce hopen e

theorem queued_perform (hopen : r.outbox.isOpen = true) (d : Deed) :
    (r.perform d).queued = r.queued + heldBy (r.announced? d).toList := by
  rw [queued, waiting_perform hopen, heldBy, List.flatMap_append, ← Multiset.coe_add]
  rfl

/-- A deed that announces no joining session leaves it to the callers what is held. -/
theorem outside_perform (hopen : r.outbox.isOpen = true)
    (hheld : heldBy (r.announced? d).toList = []) (out : Multiset Handle) :
    (r.perform d).outside out = r.outside out := by
  rw [outside, outside, queued_perform hopen, hheld, Multiset.coe_nil, add_zero]

/-- What a course adds to the queue is in its journal. -/
theorem Course.waiting (h : Course r out ds r' out') (hopen : r.outbox.isOpen = true) :
    r'.outbox.waiting.toList =
      r.outbox.waiting.toList ++ (r.journal ds).map Prod.fst := by
  induction h with
  | refl => simp [journal]
  | @step r out d mid ds r' out' _ _ ih =>
      rw [ih (by rw [isOpen_perform, hopen]), waiting_perform hopen, journal]
      cases r.announced? d <;> simp

/-! ## Courses keep registries balanced -/

theorem Legal.numbered (hd : Legal r out d out') (h : r.Numbered) : (r.perform d).Numbered := by
  cases hd with
  | retain ha => exact h.of_find? rfl fun id b hb => (find?_retain r _ id).symm.trans hb
  | keep hkept =>
      refine h.of_find? (nextSerial_letGo r _ _) fun id b hb => ?_
      rwa [perform, find?_letGo_of_kept hkept] at hb
  | last hlast =>
      refine h.of_find? (nextSerial_letGo r _ _) fun id b hb => ?_
      rw [perform, letGo_eq_remove_of_last hlast, find?_remove] at hb
      split at hb
      · simp at hb
      · exact hb
  | register hkey => exact h.register hkey
  | reuse => exact h.of_find? rfl fun _ _ hb => hb
  | animate _ => exact h.of_find? (nextSerial_announce r _) fun id b hb => by simpa [perform] using hb
  | join _ => exact h.of_find? (nextSerial_announce r _) fun id b hb => by simpa [perform] using hb

/-- A legal deed keeps a registry balanced. -/
theorem Balanced.perform (h : r.Balanced out) (hd : Legal r out d out') :
    (r.perform d).Balanced out' := by
  refine ⟨by rw [isOpen_perform, h.isOpen], ?_, hd.numbered h.numbered⟩
  have hs := h.sound
  cases hd with
  | retain ha =>
      rw [outside_perform h.isOpen rfl, outside_cons]
      exact hs.retain ha
  | keep hkept =>
      rw [outside_perform h.isOpen (by simp [announced?, hkept, heldBy])]
      rw [outside_cons] at hs
      exact hs.letGo_of_kept hkept
  | last hlast =>
      rw [outside_perform h.isOpen (by simp [announced?, hlast, heldBy]), outside_add]
      rw [outside_cons] at hs
      exact hs.letGo_of_last hlast
  | register _ hnew hhash hfull =>
      rw [outside_perform h.isOpen rfl, outside_cons]
      rw [outside_add] at hs
      exact hs.register hnew hhash hfull
  | reuse =>
      rw [outside_perform h.isOpen rfl]
      exact hs.of_entries_eq rfl
  | animate _ =>
      rw [outside_perform h.isOpen rfl]
      exact hs.of_entries_eq (entries_announce _ _)
  | @join _ session captured _ =>
      have hheld : (heldBy (r.announced? (.announce (.join session captured))).toList :
          Multiset Handle) = captured := by
        simp [announced?, heldBy]
      have houtside : (r.perform (.announce (.join session captured))).outside out' =
          r.outside (captured + out') := by
        rw [outside, outside, queued_perform h.isOpen, hheld, add_comm (captured : Multiset Handle),
          add_assoc, add_comm r.queued]
      rw [houtside]
      exact hs.of_entries_eq (entries_announce _ _)

/-- So does a course of legal deeds. -/
theorem Course.balanced (h : Course r out ds r' out') (hr : r.Balanced out) :
    r'.Balanced out' := by
  induction h with
  | refl => exact hr
  | step hd _ ih => exact ih (hr.perform hd)

/-- What waits passes to whoever takes it. -/
theorem Balanced.takeAll (h : r.Balanced out) : r.takeAll.Balanced (r.queued + out) := by
  refine ⟨h.isOpen, ?_, h.numbered.of_find? rfl fun _ _ hb => hb⟩
  have hqueued : r.takeAll.queued = 0 := rfl
  have houtside : r.takeAll.outside (r.queued + out) = r.outside out := by
    rw [outside, outside, hqueued, add_zero, add_comm]
  rw [houtside]
  exact h.sound.of_entries_eq rfl

end Registry
end AppearanceSync
