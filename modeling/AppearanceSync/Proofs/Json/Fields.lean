import AppearanceSync.Proofs.Json.Form
import Mathlib.Data.List.Nodup

/-!
# Records and alternatives are read as they are written

A record is written with its members in order.  Reading starts from a blank draft, and each
member that is read fills its own place in the draft; once all of them are read, the draft holds
the record.  An alternative is found by its name.

Both need names that are told apart.
-/

namespace AppearanceSync.Json

variable {α β : Type} {a : α} {b : β} {xs ys : List Real32}

/-- An entry is the first one with its key if no other entry has it. -/
theorem find?_key {κ : Type} [BEq κ] [LawfulBEq κ] {key : α → κ} {entries : List α}
    (hnodup : (entries.map key).Nodup) (ha : a ∈ entries) :
    entries.find? (fun e => key e == key a) = some a := by
  induction entries with
  | nil => cases ha
  | cons entry entries ih =>
      obtain ⟨hfresh, hnodup⟩ := List.nodup_cons.mp hnodup
      rcases List.mem_cons.mp ha with rfl | ha
      · exact List.find?_cons_of_pos (beq_self_eq_true (key a))
      · have hne : key entry ≠ key a := fun heq => hfresh (heq ▸ List.mem_map_of_mem ha)
        rw [List.find?_cons_of_neg (by simpa using hne), ih hnodup ha]

/-- An entry is the first one with its name if no other entry has it. -/
theorem find?_name {name : α → String} {entries : List α} (hnodup : (entries.map name).Nodup)
    (ha : a ∈ entries) : entries.find? (fun e => (name e).toList == (name a).toList) = some a := by
  have htexts : (entries.map (String.toList ∘ name)).Nodup := by
    rw [← List.map_map]
    exact List.Nodup.map (fun _ _ => String.toList_inj.mp) hnodup
  exact find?_key htexts ha

theorem readChars_writeText (text rest : List Char) :
    readChars ((writeText text).tail ++ rest) = .ok (text, rest) := by
  rw [writeText, List.cons_append, List.tail_cons, List.append_assoc, List.singleton_append]
  exact readChars_write text rest

/-! ## Records -/

namespace Fields

variable {D E : Type} {d d' d'' : D}

/-- Reading these members from their JSON fills the draft `d` up to `d'`; they have these real
numbers. -/
inductive Fills :
    List (Member D) → List (String × List Char) → List Real32 → D → D → Prop
  | done (d : D) : Fills [] [] [] d d
  | next {m : Member D} {members : List (Member D)} {json : List Char}
      {written : List (String × List Char)} {xs ys : List Real32} {d d' d'' : D}
      (hunset : m.isSet d = false)
      (hread : ReadBack xs → ∀ rest, Ends rest → m.read d (json ++ rest) = echo xs d' rest)
      (hmore : Fills members written ys d' d'') :
      Fills (m :: members) ((m.name, json) :: written) (xs ++ ys) d d''

theorem Fills.append {members more : List (Member D)}
    {written moreWritten : List (String × List Char)}
    (h : Fills members written xs d d') (hmore : Fills more moreWritten ys d' d'') :
    Fills (members ++ more) (written ++ moreWritten) (xs ++ ys) d d'' := by
  induction h with
  | done d => exact hmore
  | next hunset hread _ ih =>
      rw [List.append_assoc]
      exact .next hunset hread (ih hmore)

theorem Fills.liftFirst {members : List (Member D)} {written : List (String × List Char)}
    (h : Fills members written xs d d') (e : E) :
    Fills (members.map Fields.liftFirst) written xs (d, e) (d', e) := by
  induction h with
  | done d => exact .done _
  | next hunset hread _ ih =>
      refine .next (m := Fields.liftFirst _) hunset ?_ ih
      intro hback rest hrest
      change _ >>= _ = _
      rw [hread hback rest hrest]
      exact echo_map rfl

theorem Fills.liftSecond {members : List (Member D)} {written : List (String × List Char)}
    (h : Fills members written xs d d') (e : E) :
    Fills (members.map Fields.liftSecond) written xs (e, d) (e, d') := by
  induction h with
  | done d => exact .done _
  | next hunset hread _ ih =>
      refine .next (m := Fields.liftSecond _) hunset ?_ ih
      intro hback rest hrest
      change _ >>= _ = _
      rw [hread hback rest hrest]
      exact echo_map rfl

/-- The members of the value, which has these real numbers, are read as they are written. -/
def Echoes (f : Fields α) (a : α) (xs : List Real32) : Prop :=
  ∃ draft, Fills f.members (f.write a) xs f.blank draft ∧ f.finish draft = some a

variable {f : Fields α} {g : Fields β}

theorem echoes_one {form : Form α} (h : form.Echoes a xs) (name : String) :
    (one name form).Echoes a xs := by
  refine ⟨some a, ?_, rfl⟩
  rw [← List.append_nil xs]
  refine .next (m := ⟨name, _, _, _⟩) rfl ?_ (.done _)
  intro hback rest hrest
  change form.read _ >>= _ = _
  rw [h.reads hback rest hrest]
  exact echo_map rfl

theorem Echoes.pair (hf : f.Echoes a xs) (hg : g.Echoes b ys) :
    (f.pair g).Echoes (a, b) (xs ++ ys) := by
  obtain ⟨d, hfirst, hd⟩ := hf
  obtain ⟨e, hsecond, he⟩ := hg
  refine ⟨(d, e), (hfirst.liftFirst g.blank).append (hsecond.liftSecond d), ?_⟩
  change (f.finish d >>= _) = _
  rw [hd]
  change (g.finish e >>= _) = _
  rw [he]
  rfl

theorem Echoes.refine (h : f.Echoes a xs) {forth : α → Option β} {back : β → α}
    (hback : back b = a) (hforth : forth a = some b) : (f.refine forth back).Echoes b xs := by
  subst hback
  obtain ⟨d, hfills, hd⟩ := h
  refine ⟨d, hfills, ?_⟩
  change (f.finish d).bind forth = _
  rw [hd]
  exact hforth

theorem Echoes.map (h : f.Echoes a xs) {forth : α → β} {back : β → α} (hback : back b = a)
    (hforth : forth a = b) : (f.map forth back).Echoes b xs :=
  h.refine hback (congrArg some hforth)

theorem readMembers_listed {all members : List (Member D)} {written : List (String × List Char)}
    (hnames : ∀ m ∈ members, all.find? (fun n => n.name.toList == m.name.toList) = some m)
    (h : Fills members written xs d d') (hback : ReadBack xs) (strict : Bool) {fuel : ℕ}
    (hfuel : written.length < fuel) (first : Bool) (rest : List Char) :
    readMembers strict all fuel first d (listed first (written.map writeMember) ++ '\x7d' :: rest) =
      echo xs d' rest := by
  induction h generalizing fuel first with
  | done d =>
      obtain ⟨fuel, rfl⟩ := Nat.exists_eq_succ_of_ne_zero (Nat.ne_zero_of_lt hfuel)
      cases first <;> rfl
  | @next m members json written xs ys d d' d'' hunset hread hmore ih =>
      obtain ⟨fuel, rfl⟩ := Nat.exists_eq_succ_of_ne_zero (Nat.ne_zero_of_lt hfuel)
      obtain ⟨hname, hnames⟩ := List.forall_mem_cons.mp hnames
      have hrest := ih hnames hback.right (Nat.lt_of_succ_lt_succ hfuel) false
      have hmember : writeMember (m.name, json) =
          '"' :: ((writeText m.name.toList).tail ++ ':' :: json) := rfl
      rw [List.map_cons, listed, List.append_assoc, hmember, readMembers, nextMember_listed,
        List.append_assoc]
      change readChars _ >>= _ = _
      rw [readChars_writeText, ok_bind]
      dsimp only
      rw [hname]
      dsimp only
      rw [if_neg (by rw [hunset]; exact Bool.false_ne_true)]
      change m.read _ (json ++ _) >>= _ = _
      rw [hread hback.left _ (ends_listed (ends_cons (by decide) _) _)]
      exact echo_bind hrest

/-- A record is read as it is written if its members have different names. -/
theorem Echoes.form (h : f.Echoes a xs) (hnames : (f.members.map Member.name).Nodup)
    (strict : Bool) : (f.form strict).Echoes a xs where
  opens := ⟨'\x7b', _, rfl, rfl, by decide⟩
  reads := by
    intro hback rest _
    obtain ⟨d, hfills, hd⟩ := h
    have hfuel := length_le_listed true ((f.write a).map writeMember)
    have hfind : ∀ m ∈ f.members, f.members.find? (fun n => n.name.toList == m.name.toList) =
      some m := fun m hm => find?_name hnames hm
    change readMembers _ _
      ('\x7b' :: separated ((f.write a).map writeMember) ++ ['\x7d'] ++ rest).length _ _
      (separated _ ++ ['\x7d'] ++ rest) >>= _ = _
    rw [separated_eq_listed, List.append_assoc (listed _ _), List.singleton_append,
      readMembers_listed hfind hfills hback]
    · refine echo_map ?_
      change (f.close d >>= _) = _
      rw [close, hd]
      rfl
    · rw [List.length_map] at hfuel
      simp only [List.length_append, List.length_cons]
      omega

end Fields

/-! ## Alternatives -/

namespace Arm

variable {arms : List (Arm α)} {name : String}

theorem readName_writeText {arm : Arm α} (h : find? arms name.toList = some arm)
    (rest : List Char) : readName arms (writeText name.toList ++ rest) = .ok (arm, rest) := by
  change readChars ((writeText name.toList).tail ++ rest) >>= _ = _
  rw [readChars_writeText, ok_bind]
  dsimp only
  rw [h]

theorem read_unit (h : find? arms name.toList = some (unit name a)) (rest : List Char) :
    read arms (writeText name.toList ++ rest) = .ok (a, rest) := by
  change readName arms (writeText name.toList ++ rest) >>= _ = _
  rw [readName_writeText h]
  rfl

theorem read_holding {form : Form β} {wrap : β → α}
    (h : find? arms name.toList = some (holding name form wrap)) (hb : form.Echoes b xs)
    (hback : ReadBack xs) (rest : List Char) :
    read arms (writeHolding name (form.write b) ++ rest) = echo xs (wrap b) rest := by
  have hwritten : writeHolding name (form.write b) ++ rest =
      '\x7b' :: (writeText name.toList ++ ':' :: (form.write b ++ '\x7d' :: rest)) := by
    simp [writeHolding, Fields.writeMember]
  have hcontent : (holding name form wrap).content (form.write b ++ '\x7d' :: rest) =
      echo xs (wrap b) ('\x7d' :: rest) := by
    change form.read _ >>= _ = _
    rw [hb.reads hback _ (ends_cons (by decide) _)]
    exact echo_map rfl
  rw [hwritten]
  change readName arms _ >>= _ = _
  rw [readName_writeText h]
  change (holding name form wrap).content _ >>= _ = _
  rw [hcontent]
  exact echo_map rfl

end Arm
end AppearanceSync.Json
