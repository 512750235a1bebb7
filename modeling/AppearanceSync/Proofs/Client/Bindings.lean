import AppearanceSync.Proofs.Client.Icons
import Mathlib.Data.List.Induction

/-!
# Which binding an entity shows

A binding is served as soon as its id is known, from the call on.  Nothing takes a binding back,
so of several bindings of one entity the icon has the appearance of the one that was served last,
which need not be the one that was asked for last.
-/

namespace AppearanceSync
namespace Client

variable {c : Client} {e : EntityId} {id id' : ContentId} {acts : List Act} {a : Act}
  {k k' j j' : ℕ}

/-- The act that binds an entity to an id. -/
def Act.bind (e : EntityId) (id : ContentId) : Act := .step (.request (.bind e id))

theorem Act.binds?_eq_some_iff : a.binds? e = some id ↔ a = .bind e id := by
  constructor
  · intro h
    cases a with
    | pass now => cases h
    | step s =>
        cases s with
        | message m => cases h
        | request q =>
            cases q with
            | bind entity other =>
                rw [binds?, Step.binds?, Option.ite_none_right_eq_some] at h
                rw [h.1, Option.some.inj h.2, Act.bind]
            | load other tag => cases h
            | turfIcon turf => cases h
            | sharedCopy other => cases h
  · rintro rfl
    exact if_pos rfl

/-- The id is not known after more than `k` and fewer than `j` acts. -/
def UnknownBetween (c : Client) (acts : List Act) (id : ContentId) (k j : ℕ) : Prop :=
  ∀ i, k < i → i < j → (c.run (acts.take i)).replica.find? id = none

/-- The act at place `k` is a binding, and its id has not been known since. -/
structure Unserved (c : Client) (acts : List Act) (e : EntityId) (k : ℕ) (id : ContentId) :
    Prop where
  bound : acts[k]? = some (.bind e id)
  unknown : c.UnknownBetween acts id k (acts.length + 1)

/-- The act at place `k` is a binding, and the first `j` acts are the fewest with it after which
its id is known. -/
structure Served (c : Client) (acts : List Act) (e : EntityId) (k : ℕ) (id : ContentId) (j : ℕ) :
    Prop where
  bound : acts[k]? = some (.bind e id)
  after : k < j
  within : j ≤ acts.length
  known : ((c.run (acts.take j)).replica.find? id).isSome = true
  unknown : c.UnknownBetween acts id k j

/-- The binding is served later than the other, or with it by a table in which it does not come
before the other. -/
def Supersedes (j : ℕ) (id : ContentId) (j' : ℕ) (id' : ContentId) : Prop :=
  j' < j ∨ (j' = j ∧ id'.hash ≤ id.hash)

/-! ## One more act -/

theorem getElem?_concat_eq_some_iff {x : Act} :
    (acts ++ [a])[k]? = some x ↔ acts[k]? = some x ∨ (k = acts.length ∧ a = x) := by
  rw [List.getElem?_append]
  split
  · next hlt => simp [Nat.ne_of_lt hlt]
  · next hge =>
      have hnone : acts[k]? = none := List.getElem?_eq_none (Nat.not_lt.mp hge)
      rw [hnone, List.getElem?_singleton]
      by_cases hk : k = acts.length
      · simp [hk]
      · have hpos : k - acts.length ≠ 0 := by omega
        simp [hk, hpos]

theorem lt_of_concat_bound {x : Act} (h : (acts ++ [a])[k]? = some x) : k < acts.length + 1 := by
  have hlt := (List.getElem?_eq_some_iff.mp h).1
  rwa [List.length_append, List.length_singleton] at hlt

theorem take_concat (acts : List Act) (a : Act) :
    (acts ++ [a]).take (acts.length + 1) = acts ++ [a] :=
  List.take_of_length_le (Nat.le_of_eq (by simp))

theorem unknownBetween_concat_iff (hj : j ≤ acts.length + 1) :
    c.UnknownBetween (acts ++ [a]) id k j ↔ c.UnknownBetween acts id k j := by
  refine forall₃_congr fun i hi hij => ?_
  rw [List.take_append_of_le_length (by omega)]

theorem unknownBetween_succ_iff (h : k < j) :
    c.UnknownBetween acts id k (j + 1) ↔
      c.UnknownBetween acts id k j ∧ (c.run (acts.take j)).replica.find? id = none := by
  constructor
  · exact fun hall => ⟨fun i hi hij => hall i hi (Nat.lt_succ_of_lt hij),
      hall j h (Nat.lt_succ_self j)⟩
  · rintro ⟨hbefore, hlast⟩ i hi hij
    obtain rfl | hlt := Nat.eq_or_lt_of_le (Nat.le_of_lt_succ hij)
    · exact hlast
    · exact hbefore i hi hlt

/-- Before the last act a binding was unserved, or it is the last act. -/
theorem open_concat_iff :
    ((acts ++ [a])[k]? = some (.bind e id) ∧ c.UnknownBetween acts id k (acts.length + 1)) ↔
      c.Unserved acts e k id ∨ (k = acts.length ∧ a = .bind e id) := by
  rw [getElem?_concat_eq_some_iff, or_and_right]
  refine or_congr ⟨fun h => ⟨h.1, h.2⟩, fun h => ⟨h.bound, h.unknown⟩⟩ (and_iff_left_of_imp ?_)
  rintro ⟨rfl, -⟩ i hi hij
  omega

theorem unserved_concat_iff :
    c.Unserved (acts ++ [a]) e k id ↔
      (c.Unserved acts e k id ∨ (k = acts.length ∧ a = .bind e id)) ∧
        (c.run (acts ++ [a])).replica.find? id = none := by
  have hlen : (acts ++ [a]).length = acts.length + 1 := by simp
  have hunknown (hk : k < acts.length + 1) :
      c.UnknownBetween (acts ++ [a]) id k ((acts ++ [a]).length + 1) ↔
        c.UnknownBetween acts id k (acts.length + 1) ∧
          (c.run (acts ++ [a])).replica.find? id = none := by
    rw [hlen, unknownBetween_succ_iff hk, unknownBetween_concat_iff (Nat.le_refl _), take_concat]
  rw [← open_concat_iff]
  constructor
  · rintro ⟨hbound, hopen⟩
    obtain ⟨hbefore, hnow⟩ := (hunknown (lt_of_concat_bound hbound)).mp hopen
    exact ⟨⟨hbound, hbefore⟩, hnow⟩
  · rintro ⟨⟨hbound, hbefore⟩, hnow⟩
    exact ⟨hbound, (hunknown (lt_of_concat_bound hbound)).mpr ⟨hbefore, hnow⟩⟩

theorem served_concat_iff :
    c.Served (acts ++ [a]) e k id j ↔
      c.Served acts e k id j ∨
        (j = acts.length + 1 ∧ (c.Unserved acts e k id ∨ (k = acts.length ∧ a = .bind e id)) ∧
          ((c.run (acts ++ [a])).replica.find? id).isSome = true) := by
  have hlen : (acts ++ [a]).length = acts.length + 1 := by simp
  rw [← open_concat_iff]
  constructor
  · rintro ⟨hbound, hafter, hwithin, hknown, hunknown⟩
    rw [hlen] at hwithin
    rw [unknownBetween_concat_iff hwithin] at hunknown
    obtain rfl | hlt := Nat.eq_or_lt_of_le hwithin
    · rw [take_concat] at hknown
      exact Or.inr ⟨rfl, ⟨hbound, hunknown⟩, hknown⟩
    · have hj : j ≤ acts.length := Nat.le_of_lt_succ hlt
      rw [List.take_append_of_le_length hj] at hknown
      rw [List.getElem?_append_left (Nat.lt_of_lt_of_le hafter hj)] at hbound
      exact Or.inl ⟨hbound, hafter, hj, hknown, hunknown⟩
  · rintro (⟨hbound, hafter, hwithin, hknown, hunknown⟩ | ⟨rfl, ⟨hbound, hunknown⟩, hknown⟩)
    · refine ⟨getElem?_concat_eq_some_iff.mpr (Or.inl hbound), hafter, by omega, ?_, ?_⟩
      · rwa [List.take_append_of_le_length hwithin]
      · rwa [unknownBetween_concat_iff (Nat.le_succ_of_le hwithin)]
    · refine ⟨hbound, lt_of_concat_bound hbound, Nat.le_of_eq hlen.symm, ?_, ?_⟩
      · rwa [take_concat]
      · rwa [unknownBetween_concat_iff (Nat.le_refl _)]

/-- Every binding has been served, or its id has not been known since. -/
theorem unserved_or_served (h : acts[k]? = some (.bind e id)) :
    c.Unserved acts e k id ∨ ∃ j, c.Served acts e k id j := by
  induction acts using List.reverseRecOn with
  | nil => cases h
  | append_singleton acts a ih =>
      have hbinding : c.Unserved acts e k id ∨ (k = acts.length ∧ a = .bind e id) ∨
          ∃ j, c.Served acts e k id j := by
        obtain hold | hnew := getElem?_concat_eq_some_iff.mp h
        · exact (ih hold).imp_right Or.inr
        · exact Or.inr (Or.inl hnew)
      rw [← or_assoc] at hbinding
      obtain hopen | ⟨j, hserved⟩ := hbinding
      · cases hnow : (c.run (acts ++ [a])).replica.find? id with
        | none => exact Or.inl (unserved_concat_iff.mpr ⟨hopen, hnow⟩)
        | some n =>
            refine Or.inr ⟨acts.length + 1, served_concat_iff.mpr (Or.inr ⟨rfl, hopen, ?_⟩)⟩
            rw [hnow]
            rfl
      · exact Or.inr ⟨j, served_concat_iff.mpr (Or.inl hserved)⟩

/-- A binding is served once. -/
theorem Served.unique (h : c.Served acts e k id j) (h' : c.Served acts e k id j') : j = j' := by
  have hle {j j' : ℕ} (h : c.Served acts e k id j) (h' : c.Served acts e k id j') : j ≤ j' := by
    by_contra hlt
    have hknown := h'.known
    rw [h.unknown j' h'.after (Nat.not_le.mp hlt)] at hknown
    cases hknown
  exact Nat.le_antisymm (hle h h') (hle h' h)

/-! ## Runs -/

/-- After these acts the replica owes the bindings that have not been served, and what the
entity's icon will show is the binding that was served last. -/
structure Accounted (c : Client) (acts : List Act) (e : EntityId) : Prop where
  bindable : (c.run acts).Bindable e
  owes : ∀ id, (c.run acts).replica.Owes e id ↔ ∃ k, c.Unserved acts e k id
  last : ∀ {k id j}, c.Served acts e k id j →
    ∃ k id j, c.Served acts e k id j ∧ (c.run acts).aim e = some id ∧
      ∀ k' id' j', c.Served acts e k' id' j' → Supersedes j id j' id'

/-- What is last in an ascending list is as great as all that is in the list. -/
theorem hash_le_of_getLast? {ids : List ContentId}
    (h : ids.Pairwise fun a b => a.hash ≤ b.hash) (hlast : ids.getLast? = some id)
    (hmem : id' ∈ ids) : id'.hash ≤ id.hash := by
  obtain ⟨before, rfl⟩ := List.getLast?_eq_some_iff.mp hlast
  obtain hmem | hmem := List.mem_append.mp hmem
  · exact (List.pairwise_append.mp h).2.2 id' hmem id (List.mem_singleton.mpr rfl)
  · rw [List.mem_singleton.mp hmem]
    exact UInt64.le_refl _

theorem Accounted.concat (h : c.Accounted acts e) (hspares : a.Spares e) :
    c.Accounted (acts ++ [a]) e := by
  obtain ⟨ids, hserves⟩ := h.bindable.serves_act hspares
  rw [← run_concat] at hserves
  -- what is owed or bound just now, as bindings at their places
  have hopen (id : ContentId) : (c.run acts).replica.Owes e id ∨ a.binds? e = some id ↔
      ∃ k, c.Unserved acts e k id ∨ (k = acts.length ∧ a = .bind e id) := by
    rw [h.owes, Act.binds?_eq_some_iff, exists_or, exists_eq_left]
  have hnew {k : ℕ} {id : ContentId} {j : ℕ} (hserved : c.Served (acts ++ [a]) e k id j) :
      c.Served acts e k id j ∨ (j = acts.length + 1 ∧ id ∈ ids) := by
    refine (served_concat_iff.mp hserved).imp_right fun ⟨hj, hbinding, hknown⟩ => ⟨hj, ?_⟩
    exact (hserves.served id).mpr ⟨(hopen id).mpr ⟨k, hbinding⟩, hknown⟩
  refine ⟨hserves.bindable, fun id => ?_, fun {k id j} hserved => ?_⟩
  · rw [hserves.owes, hopen]
    simp only [unserved_concat_iff, exists_and_right]
  · cases hlast : ids.getLast? with
    | none =>
        have hnone : ids = [] := List.getLast?_eq_none_iff.mp hlast
        have hsame {k : ℕ} {id : ContentId} {j : ℕ} :
            c.Served (acts ++ [a]) e k id j ↔ c.Served acts e k id j := by
          refine ⟨fun h => (hnew h).resolve_right ?_, fun h => served_concat_iff.mpr (Or.inl h)⟩
          rintro ⟨-, hmem⟩
          rw [hnone] at hmem
          exact List.not_mem_nil hmem
        simp only [hsame] at hserved ⊢
        rw [hserves.aim, hlast, Option.none_or]
        exact h.last hserved
    | some id =>
        have hmem : id ∈ ids := List.mem_of_getLast? hlast
        obtain ⟨hbinding, hknown⟩ := (hserves.served id).mp hmem
        obtain ⟨k, hbinding⟩ := (hopen id).mp hbinding
        refine ⟨k, id, acts.length + 1, served_concat_iff.mpr (Or.inr ⟨rfl, hbinding, hknown⟩),
          ?_, fun k' id' j' hserved' => ?_⟩
        · rw [hserves.aim, hlast, Option.some_or]
        · obtain hold | ⟨hj, hmem'⟩ := hnew hserved'
          · exact Or.inl (Nat.lt_succ_of_le hold.within)
          · exact Or.inr ⟨hj, hash_le_of_getLast? hserves.ascending hlast hmem'⟩

theorem accounted_run {tileSize : ℕ} (hnew : c.replica = .empty tileSize)
    (hrow : (c.icons.find? e).isSome = true) (hspares : ∀ a ∈ acts, a.Spares e) :
    c.Accounted acts e := by
  induction acts using List.reverseRecOn with
  | nil =>
      refine ⟨bindable_of_empty hnew hrow, fun id => ⟨fun howes => ?_, ?_⟩, fun hserved => ?_⟩
      · refine absurd ?_ howes
        change c.replica.dues e id = []
        rw [hnew]
        rfl
      · rintro ⟨k, hunserved⟩
        cases hunserved.bound
      · cases hserved.bound
  | append_singleton acts a ih =>
      have hbefore := ih fun b hb => hspares b (List.mem_append_left _ hb)
      exact hbefore.concat (hspares a (List.mem_append_right _ (List.mem_singleton.mpr rfl)))

/-- When nothing is pending for an entity that has been bound and not animated, every binding has
been served, and its icon has the appearance of the one that was served last.  That is the one that
was asked for last, if all others had been served before it was. -/
theorem appearance_of_bindings (c : Client) (tileSize : ℕ) (hnew : c.replica = .empty tileSize)
    (e : EntityId) (hrow : (c.icons.find? e).isSome = true) (acts : List Act)
    (hcalm : ∀ animation, .step (.message (.animate animation)) ∈ acts →
      animation.target ≠ .entity e)
    (hpending : ∀ id, .update (.entity e) .show ∉ (c.run acts).replica.waitingFor id)
    (hqueued : (c.run acts).replica.updates = []) :
    (∀ (k : ℕ) (id : ContentId), acts[k]? = some (.bind e id) → ∃ j, c.Served acts e k id j) ∧
    ((∃ (k : ℕ) (id : ContentId), acts[k]? = some (.bind e id)) →
      ∃ k id j, c.Served acts e k id j ∧ (c.run acts).appearance? e = some id ∧
        ∀ k' id' j', c.Served acts e k' id' j' → Supersedes j id j' id') ∧
    ∀ (k : ℕ) (id : ContentId), acts[k]? = some (.bind e id) →
      (∀ (k' : ℕ) (id' : ContentId), acts[k']? = some (.bind e id') → k' ≤ k) →
      (∀ (k' : ℕ) (id' : ContentId), acts[k']? = some (.bind e id') → k' < k →
        ∃ j ≤ k, c.Served acts e k' id' j) →
      (c.run acts).appearance? e = some id := by
  have hspares : ∀ a ∈ acts, a.Spares e := by
    rintro a ha s rfl animation rfl
    exact hcalm animation ha
  have h := accounted_run hnew hrow hspares
  have hserved : ∀ (k : ℕ) (id : ContentId), acts[k]? = some (.bind e id) →
      ∃ j, c.Served acts e k id j := by
    intro k id hbound
    refine (unserved_or_served hbound).resolve_left fun hunserved => ?_
    obtain ⟨callback, hmem⟩ := List.exists_mem_of_ne_nil _ ((h.owes id).mpr ⟨k, hunserved⟩)
    rw [h.bindable.onlyShows id callback hmem] at hmem
    exact hpending id (List.mem_of_mem_filter hmem)
  have haim : (c.run acts).aim e = (c.run acts).appearance? e := by
    rw [aim, hqueued]
    rfl
  have hlast : (∃ (k : ℕ) (id : ContentId), acts[k]? = some (.bind e id)) →
      ∃ k id j, c.Served acts e k id j ∧ (c.run acts).appearance? e = some id ∧
        ∀ k' id' j', c.Served acts e k' id' j' → Supersedes j id j' id' := by
    rintro ⟨k, id, hbound⟩
    obtain ⟨j, hj⟩ := hserved k id hbound
    rw [← haim]
    exact h.last hj
  refine ⟨hserved, hlast, fun k id hbound hlatest hothers => ?_⟩
  obtain ⟨k', id', j', hserved', happearance, hmax⟩ := hlast ⟨k, id, hbound⟩
  obtain ⟨j, hj⟩ := hserved k id hbound
  -- the binding that was asked for last is served after that, so no other one is served later
  obtain hlt | heq := Nat.lt_or_eq_of_le (hlatest k' id' hserved'.bound)
  · obtain ⟨early, hearly, hserved''⟩ := hothers k' id' hserved'.bound hlt
    have hsame := hserved'.unique hserved''
    have hafter := hj.after
    obtain hless | ⟨hequal, -⟩ := hmax k id j hj
    · omega
    · omega
  · have hbound' := hserved'.bound
    rw [heq, hbound] at hbound'
    cases hbound'
    exact happearance

/-- A door is bound to one look, which arrives, and then to another, which arrives later. -/
theorem appearance_of_bindings_in_turn :
    let look (name : String) : WireState := .ofProperties
      { Properties.plain with icon := some ⟨11⟩, iconState := some name }
    let added (state : WireState) : Act := .step (.message (.added ⟨state.contentId, state⟩))
    let client := ((start .standard).spawn (some .empty)).1
    let door := ((start .standard).spawn (some .empty)).2
    let acts : List Act := [.bind door (look "open").contentId, added (look "open"), .pass .zero,
      .bind door (look "closed").contentId, added (look "closed"), .pass .zero]
    (client.run acts).replica.pendingCount = 0 ∧ (client.run acts).replica.updates = [] ∧
      client.Served acts door 0 (look "open").contentId 2 ∧
      (client.run acts).appearance? door = some (look "closed").contentId := by
  intro look added client door acts
  have hpending : (client.run acts).replica.pendingCount = 0 := by decide +kernel
  have hqueued : (client.run acts).replica.updates = [] := by decide +kernel
  have hserved : client.Served acts door 0 (look "open").contentId 2 := by
    refine ⟨rfl, by decide, by decide, by decide +kernel, fun i hi hij => ?_⟩
    obtain rfl : i = 1 := by omega
    decide +kernel
  have hcalm : ∀ animation, .step (.message (.animate animation)) ∈ acts →
      animation.target ≠ .entity door := by
    intro animation hmem
    simp [acts, added, Act.bind] at hmem
  refine ⟨hpending, hqueued, hserved, ?_⟩
  refine (appearance_of_bindings client 32 rfl door (by decide +kernel) acts hcalm
    (fun id hmem => ?_) hqueued).2.2 3 (look "closed").contentId rfl (fun k id hk => ?_)
    fun k id hk hlt => ?_
  · rw [Replica.waitingFor_eq_nil hpending] at hmem
    exact List.not_mem_nil hmem
  · by_contra hlt
    have hshort : k < 6 := (List.getElem?_eq_some_iff.mp hk).1
    obtain rfl | rfl : k = 4 ∨ k = 5 := by omega
    · cases hk
    · cases hk
  · obtain rfl | rfl | rfl : k = 0 ∨ k = 1 ∨ k = 2 := by omega
    · cases hk
      exact ⟨2, by decide, hserved⟩
    · cases hk
    · cases hk

/-- A door is bound to one look and then to another, and the second look arrives first.  When the
first look has arrived as well, the door has the first. -/
theorem earlier_binding_shown :
    let look (name : String) : WireState := .ofProperties
      { Properties.plain with icon := some ⟨11⟩, iconState := some name }
    let added (state : WireState) : Act := .step (.message (.added ⟨state.contentId, state⟩))
    let client := ((start .standard).spawn (some .empty)).1
    let door := ((start .standard).spawn (some .empty)).2
    let acts : List Act := [.bind door (look "open").contentId,
      .bind door (look "closed").contentId, added (look "closed"), .pass .zero,
      added (look "open"), .pass .zero]
    (client.run acts).replica.pendingCount = 0 ∧ (client.run acts).replica.updates = [] ∧
      (client.run acts).appearance? door = some (look "open").contentId ∧
      (client.run acts).appearance? door ≠ some (look "closed").contentId := by
  decide +kernel

end Client
end AppearanceSync
