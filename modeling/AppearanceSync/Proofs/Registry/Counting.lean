import AppearanceSync.Proofs.Registry.Chronicle
import AppearanceSync.Proofs.Nesting

/-!
# What a registry counts

A registry counts how often it has made an instance, how often it found one in place of a new
one, and how often it removed one.  Nothing compares these counts with the table or the queue.
Here they are compared with what has been announced and with the trees that were asked for.  A
deed changes them together with the table, so that they agree again after every deed; and interning
a tree has one deed that answers for each descriptor in it.
-/

namespace AppearanceSync

/-! ## Messages and deeds that count -/

namespace Message

/-- The message announces a new appearance. -/
def isAdded : Message → Bool
  | .added _ => true
  | _ => false

/-- The message announces that an appearance is gone. -/
def isRemoved : Message → Bool
  | .removed _ => true
  | _ => false

end Message

namespace Deed

/-- The deed answers for a descriptor: its instance is made, or one is found in its place. -/
def answers : Deed → Bool
  | .register _ | .reuse => true
  | .retain _ | .letGo _ | .announce _ => false

/-- How many descriptors these deeds answer for. -/
def answered (ds : List Deed) : ℕ := ds.countP answers

variable {ds : List Deed}

theorem answered_cons (d : Deed) (ds : List Deed) :
    answered (d :: ds) = (if d.answers then 1 else 0) + answered ds :=
  List.countP_cons.trans (Nat.add_comm ..)

theorem answered_append (before after : List Deed) :
    answered (before ++ after) = answered before + answered after := List.countP_append

/-- Giving handles up answers for nothing. -/
theorem answered_of_givesUp (h : ∀ d ∈ ds, d.GivesUp) : answered ds = 0 := by
  refine List.countP_eq_zero.mpr fun d hd hanswers => ?_
  have hgives := h d hd
  cases d with
  | letGo a => cases hanswers
  | _ => exact hgives.elim

theorem answered_map_retain (handles : List Handle) : answered (handles.map .retain) = 0 := by
  refine List.countP_eq_zero.mpr fun d hd hanswers => ?_
  obtain ⟨a, -, rfl⟩ := List.mem_map.mp hd
  cases hanswers

theorem answered_elim {β : Type} (found : Option β) {deeds : β → List Deed}
    (h : ∀ b, answered (deeds b) = 0) : answered (found.elim [] deeds) = 0 := by
  cases found with
  | none => rfl
  | some b => exact h b

end Deed

/-- The counts agree with the messages that were announced and with the number of descriptors
that were asked for. -/
structure RegistryStats.Agrees (stats : RegistryStats) (ms : List Message) (asked : ℕ) :
    Prop where
  interned : stats.interned = ms.countP Message.isAdded
  released : stats.released = ms.countP Message.isRemoved
  live : stats.live + stats.released = stats.interned
  asked : stats.interned + stats.deduplicated = asked

namespace RegistryStats.Agrees

variable {stats : RegistryStats} {ms : List Message} {asked : ℕ}

/-- An animation counts for nothing. -/
theorem animated (h : stats.Agrees ms asked) (e : Animate) :
    stats.Agrees (ms ++ [.animate e]) asked where
  interned := by
    rw [List.countP_append]
    exact h.interned
  released := by
    rw [List.countP_append]
    exact h.released
  live := h.live
  asked := h.asked

/-- A new instance answers for a descriptor. -/
theorem added (h : stats.Agrees ms asked) (e : Added) :
    RegistryStats.Agrees { stats with live := stats.live + 1, interned := stats.interned + 1 }
      (ms ++ [.added e]) (asked + 1) where
  interned := by
    rw [List.countP_append]
    exact congrArg (· + 1) h.interned
  released := by
    rw [List.countP_append]
    exact h.released
  live := by
    rw [← h.live]
    exact Nat.add_right_comm ..
  asked := by
    rw [← h.asked]
    exact Nat.add_right_comm ..

/-- So does one that is found in its place. -/
theorem reused (h : stats.Agrees ms asked) :
    RegistryStats.Agrees { stats with deduplicated := stats.deduplicated + 1 } ms (asked + 1) where
  interned := h.interned
  released := h.released
  live := h.live
  asked := congrArg (· + 1) h.asked

/-- An instance that is removed is not counted as registered any more. -/
theorem removed (h : stats.Agrees ms asked) {live : ℕ} (hlive : stats.live = live + 1)
    (e : Removed) :
    RegistryStats.Agrees { stats with live, released := stats.released + 1 }
      (ms ++ [.removed e]) asked where
  interned := by
    rw [List.countP_append]
    exact h.interned
  released := by
    rw [List.countP_append]
    exact congrArg (· + 1) h.released
  live := by
    have hsum := h.live
    dsimp only
    omega
  asked := h.asked

end RegistryStats.Agrees

namespace Registry

variable {r r' : Registry} {a : Handle} {id : ContentId} {out out' : Multiset Handle} {d : Deed}
  {ds : List Deed} {ms : List Message} {n : ℕ}

/-! ## Counts after one change -/

@[simp] theorem stats_announce (r : Registry) (e : OutboundEvent) :
    (r.announce e).stats = r.stats := by
  unfold announce
  split <;> rfl

theorem stats_retain (r : Registry) (a : Handle) : (r.retain a).stats = r.stats := by
  rw [stats, size, retain, Std.TreeMap.size_modify]
  rfl

theorem stats_letGo_of_kept {serial : Serial} (h : (r.letGo serial id).2 = false) :
    (r.letGo serial id).1.stats = r.stats := by
  unfold letGo at h ⊢
  split at h
  · rfl
  · next e he =>
      split_ifs at h ⊢
      · rfl
      · have hcontains : r.entries.contains id = true := by
          rw [Std.TreeMap.contains_eq_isSome_getElem?, he, Option.isSome_some]
        rw [stats, size, Std.TreeMap.size_insert, if_pos hcontains]
        rfl

theorem stats_register (hnew : r.find? a.id = none) :
    (r.register a).stats =
      { r.stats with live := r.stats.live + 1, interned := r.stats.interned + 1 } := by
  have hcontains : ¬r.entries.contains a.id = true := by
    rw [← contains, contains_eq_isSome_find?, hnew]
    exact Bool.false_ne_true
  have hstats := stats_announce r (.message (.added ⟨a.id, a.toState⟩))
  simp only [stats, RegistryStats.mk.injEq] at hstats ⊢
  obtain ⟨hlive, hinterned, hdeduplicated, hreleased⟩ := hstats
  refine ⟨?_, congrArg (· + 1) hinterned, hdeduplicated, hreleased⟩
  rw [size, register, entries_publish, Std.TreeMap.size_insert, if_neg hcontains]
  rfl

theorem stats_remove (hold : (r.find? id).isSome) :
    ∃ live, r.stats.live = live + 1 ∧
      (r.remove id).stats = { r.stats with live, released := r.stats.released + 1 } := by
  have hcontains : r.entries.contains id = true := by
    rw [← contains, contains_eq_isSome_find?]
    exact hold
  obtain ⟨live, hlive⟩ : ∃ live, r.entries.size = live + 1 := by
    refine Nat.exists_eq_succ_of_ne_zero fun hzero => ?_
    have hempty : r.entries.isEmpty = true := by
      rw [Std.TreeMap.isEmpty_eq_size_eq_zero, hzero, beq_self_eq_true]
    exact Std.TreeMap.isEmpty_iff_forall_not_mem.mp hempty id
      (Std.TreeMap.contains_iff_mem.mp hcontains)
  have hstats := stats_announce r (.message (.removed ⟨id⟩))
  simp only [stats, RegistryStats.mk.injEq] at hstats ⊢
  obtain ⟨-, hinterned, hdeduplicated, hreleased⟩ := hstats
  refine ⟨live, hlive, ?_, hinterned, hdeduplicated, congrArg (· + 1) hreleased⟩
  rw [size, remove, entries_publish, Std.TreeMap.size_erase, if_pos hcontains, hlive,
    Nat.add_sub_cancel]

/-! ## Counts after deeds -/

/-- The messages of a deed come before those of the deeds after it. -/
theorem messagesOf_journal_cons (r : Registry) (d : Deed) (ds : List Deed) :
    messagesOf (r.journal (d :: ds)) =
      ((r.announced? d).bind OutboundEvent.message?).toList ++
        messagesOf ((r.perform d).journal ds) := by
  rw [journal, messagesOf, List.filterMap_append, messagesOf]
  congr 1
  cases h : r.announced? d with
  | none => rfl
  | some e => cases e <;> rfl

/-- A legal deed changes the counts as it changes the table and the queue. -/
theorem Legal.agrees (hd : Legal r out d out') (h : r.Balanced out) (hr : r.stats.Agrees ms n) :
    (r.perform d).stats.Agrees
      (ms ++ ((r.announced? d).bind OutboundEvent.message?).toList)
      (n + if d.answers then 1 else 0) := by
  have hsilent : r.stats.Agrees (ms ++ []) n := by rwa [List.append_nil]
  cases hd with
  | @retain a _ ha =>
      rw [perform, stats_retain]
      exact hsilent
  | @keep a _ hkept =>
      rw [perform, stats_letGo_of_kept hkept, announced?, hkept]
      exact hsilent
  | @last a _ hlast =>
      have hold : (r.find? a.id).isSome := by
        rw [h.find?_of_mem (Multiset.mem_cons_self a _), Option.isSome_some]
      obtain ⟨live, hlive, hstats⟩ := stats_remove hold
      rw [perform, letGo_eq_remove_of_last hlast, hstats, announced?, if_pos hlast]
      exact hr.removed hlive _
  | @register a _ _ hnew =>
      rw [perform, stats_register hnew]
      exact hr.added _
  | reuse =>
      rw [perform, announced?, Option.bind_none, Option.toList_none, List.append_nil]
      exact hr.reused
  | @animate _ e _ =>
      rw [perform, stats_announce]
      exact hr.animated e
  | join _ =>
      rw [perform, stats_announce]
      exact hsilent

/-- The counts after a course agree with what it has announced and answered for. -/
theorem Course.agrees (hc : Course r out ds r' out') (h : r.Balanced out)
    (hr : r.stats.Agrees ms n) :
    r'.stats.Agrees (ms ++ messagesOf (r.journal ds)) (n + Deed.answered ds) := by
  induction hc generalizing ms n with
  | refl =>
      rw [messagesOf, journal, List.filterMap_nil, List.append_nil]
      exact hr
  | step hd _ ih =>
      have hrest := ih (h.perform hd) (hd.agrees h hr)
      rwa [List.append_assoc, ← messagesOf_journal_cons, Nat.add_assoc, ← Deed.answered_cons]
        at hrest

/-! ## The descriptors of a tree -/

theorem answered_internPartsDeeds (r : Registry) (properties : Properties)
    (overlays underlays : List Handle) :
    Deed.answered (r.internPartsDeeds properties overlays underlays) = 1 := by
  rw [internPartsDeeds]
  split
  · next a _ =>
      have hover := Deed.answered_of_givesUp (givesUp_releaseAllDeeds
        { r.retain a with deduplicated := r.deduplicated + 1 } overlays)
      have hunder := Deed.answered_of_givesUp (givesUp_releaseAllDeeds
        (releaseAll { r.retain a with deduplicated := r.deduplicated + 1 } overlays) underlays)
      rw [Deed.answered_cons, Deed.answered_cons, Deed.answered_append, hover, hunder]
      rfl
  · rfl

mutual

/-- Each descriptor of a tree is answered for once. -/
theorem answered_internTreeDeeds (r : Registry) : ∀ d : Descriptor,
    Deed.answered (r.internTreeDeeds d) = d.size
  | ⟨properties, overlays, underlays⟩ => by
      rw [internTreeDeeds, Deed.answered_append, Deed.answered_append,
        answered_internTreesDeeds r overlays, answered_internTreesDeeds _ underlays,
        answered_internPartsDeeds, Descriptor.size]
      omega

theorem answered_internTreesDeeds (r : Registry) : ∀ ds : List Descriptor,
    Deed.answered (r.internTreesDeeds ds) = Descriptor.sizeList ds
  | [] => rfl
  | d :: ds => by
      rw [internTreesDeeds, Deed.answered_append, answered_internTreeDeeds r d,
        answered_internTreesDeeds _ ds, Descriptor.sizeList]

end

end Registry
end AppearanceSync
