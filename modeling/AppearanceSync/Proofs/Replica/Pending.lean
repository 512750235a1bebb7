import AppearanceSync.Proofs.Replica.Effects

/-!
# How many callbacks wait

The number of callbacks that wait is one more when a callback begins to wait, and
falls by what waited for an id when that is run.  The lists are kept in a map, so
this comes down to what is in the map under other ids.
-/

namespace AppearanceSync

section Maps

variable {t t' : Std.TreeMap ContentId (List Callback)} {id : ContentId}

/-- The length of all lists in the map. -/
def totalWaiting (t : Std.TreeMap ContentId (List Callback)) : ℕ := t.values.flatten.length

/-- The length of all lists but that of one id. -/
def totalWaitingBut (t : Std.TreeMap ContentId (List Callback)) (id : ContentId) : ℕ :=
  ((t.toList.filter fun e => ¬id == e.1).flatMap Prod.snd).length

theorem totalWaiting_eq (t : Std.TreeMap ContentId (List Callback)) :
    totalWaiting t = (t.toList.flatMap Prod.snd).length := by
  have hvalues : t.values = t.toList.map Prod.snd := by
    have hfold : t.values = t.foldr (fun _ list rest => list :: rest) [] := rfl
    rw [hfold, Std.TreeMap.foldr_eq_foldr_toList]
    induction t.toList with
    | nil => rfl
    | cons e es ih => rw [List.foldr_cons, ih, List.map_cons]
  rw [totalWaiting, hvalues, List.flatMap]

theorem totalWaiting_insert (t : Std.TreeMap ContentId (List Callback)) (id : ContentId)
    (list : List Callback) :
    totalWaiting (t.insert id list) = list.length + totalWaitingBut t id := by
  have hperm := (Std.TreeMap.toList_insert_perm (t := t) (k := id) (v := list)).flatMap_right
    Prod.snd
  rw [totalWaiting_eq, hperm.length_eq, List.flatMap_cons, List.length_append, totalWaitingBut]

theorem totalWaiting_congr (h : ∀ other : ContentId, t[other]? = t'[other]?) :
    totalWaiting t = totalWaiting t' := by
  rw [totalWaiting, totalWaiting, (Std.TreeMap.Equiv.of_forall_constGet?_eq h).values_eq]

theorem totalWaiting_eq_add (t : Std.TreeMap ContentId (List Callback)) (id : ContentId) :
    totalWaiting t = (t.getD id []).length + totalWaitingBut t id := by
  rw [Std.TreeMap.getD_eq_getD_getElem?]
  cases hfound : t[id]? with
  | none =>
      have hall : t.toList.filter (fun e => ¬id == e.1) = t.toList := by
        rw [List.filter_eq_self]
        intro e he
        have hsome := Std.TreeMap.mem_toList_iff_getElem?_eq_some.mp he
        have hne : id ≠ e.1 := by
          rintro rfl
          rw [hfound] at hsome
          cases hsome
        simpa using hne
      rw [totalWaiting_eq, totalWaitingBut, hall, Option.getD_none, List.length_nil, Nat.zero_add]
  | some list =>
      rw [Option.getD_some, ← totalWaiting_insert]
      refine totalWaiting_congr fun other => ?_
      rw [Std.TreeMap.getElem?_insert]
      split
      · next heq =>
          obtain rfl := Std.LawfulEqCmp.eq_of_compare heq
          exact hfound
      · rfl

theorem totalWaiting_erase (t : Std.TreeMap ContentId (List Callback)) (id : ContentId) :
    totalWaiting (t.erase id) = totalWaitingBut t id := by
  -- putting an empty list in the place of the erased one undoes nothing but its absence
  have hbut : totalWaitingBut (t.erase id) id = totalWaitingBut t id := by
    have hinsert : totalWaiting ((t.erase id).insert id []) = totalWaiting (t.insert id []) := by
      refine totalWaiting_congr fun other => ?_
      rw [Std.TreeMap.getElem?_insert, Std.TreeMap.getElem?_insert, Std.TreeMap.getElem?_erase]
      split <;> rfl
    rw [totalWaiting_insert, totalWaiting_insert] at hinsert
    exact Nat.add_left_cancel hinsert
  rw [totalWaiting_eq_add _ id, Std.TreeMap.getD_erase_self, hbut, List.length_nil, Nat.zero_add]

end Maps

namespace Replica

theorem pendingCount_wait (c : Replica) (id : ContentId) (callback : Callback) :
    (c.wait id callback).pendingCount = c.pendingCount + 1 := by
  have hbefore : c.pendingCount = (c.waiting.getD id []).length + totalWaitingBut c.waiting id :=
    totalWaiting_eq_add c.waiting id
  have hafter : (c.wait id callback).pendingCount =
      (c.waiting.getD id [] ++ [callback]).length + totalWaitingBut c.waiting id :=
    totalWaiting_insert c.waiting id _
  rw [hbefore, hafter, List.length_append, List.length_singleton]
  omega

theorem pendingCount_drain (c : Replica) (id : ContentId) (n : Serial) :
    (c.drain id n).pendingCount + (c.waitingFor id).length = c.pendingCount := by
  have hbefore : c.pendingCount = (c.waitingFor id).length + totalWaitingBut c.waiting id :=
    totalWaiting_eq_add c.waiting id
  have hafter : (c.drain id n).pendingCount = totalWaitingBut c.waiting id := by
    obtain ⟨updates, notices, heq⟩ := drain_eq c id n
    rw [heq]
    exact totalWaiting_erase c.waiting id
  rw [hbefore, hafter, Nat.add_comm]

theorem waitingFor_eq_nil {c : Replica} (h : c.pendingCount = 0) (id : ContentId) :
    c.waitingFor id = [] := by
  have htotal : c.pendingCount = (c.waitingFor id).length + totalWaitingBut c.waiting id :=
    totalWaiting_eq_add c.waiting id
  rw [h] at htotal
  exact List.eq_nil_of_length_eq_zero (by omega)

end Replica
end AppearanceSync
