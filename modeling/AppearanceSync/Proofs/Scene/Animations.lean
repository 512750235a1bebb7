import AppearanceSync.Proofs.Hub.Sessions
import AppearanceSync.Proofs.Replica.Animations
import AppearanceSync.Proofs.Scene.Basic

/-!
# Animations in every run

A successful call announces one animation, and nothing else announces any.  So the
animations that a session is sent are those of the calls since it connected, in order,
as far as its messages go; and its client carries out exactly these, whatever happens
meanwhile to the instances that the animations lead to.
-/

namespace AppearanceSync

open Registry (Chronicle messagesOf)

namespace Registry

variable {ds : List Deed}

/-- The animations that are announced, in order. -/
def animationsOf (entries : List (OutboundEvent × Registry)) : List Animate :=
  (messagesOf entries).filterMap Message.animation?

theorem animationsOf_append (before after : List (OutboundEvent × Registry)) :
    animationsOf (before ++ after) = animationsOf before ++ animationsOf after := by
  rw [animationsOf, messagesOf, List.filterMap_append, List.filterMap_append]
  rfl

/-- Tacit deeds announce no animation. -/
theorem animationsOf_tacit (r : Registry) (h : ∀ d ∈ ds, d.Tacit) :
    animationsOf (r.journal ds) = [] := by
  induction ds generalizing r with
  | nil => rfl
  | cons d ds ih =>
      have hd := h d List.mem_cons_self
      rw [journal, animationsOf_append, ih _ fun d hd => h d (List.mem_cons_of_mem _ hd),
        List.append_nil]
      cases d with
      | retain a => rfl
      | letGo a =>
          rw [announced?]
          split <;> rfl
      | register a => rfl
      | reuse => rfl
      | announce e => exact hd.elim

/-- An announcement comes after those of the deeds before it. -/
theorem journal_concat (r : Registry) (ds : List Deed) (e : OutboundEvent) :
    ∃ r', r.journal (ds ++ [.announce e]) = r.journal ds ++ [(e, r')] := by
  induction ds generalizing r with
  | nil => exact ⟨_, rfl⟩
  | cons d ds ih =>
      obtain ⟨r', hrest⟩ := ih (r.perform d)
      refine ⟨r', ?_⟩
      rw [List.cons_append, journal, journal, hrest, List.append_assoc]

/-- The animation that is announced if this succeeds. -/
def animation? (r : Registry) (target : Target) (d : Descriptor) (params : PlayParams) :
    Option Animate :=
  match (r.animate target d params).2 with
  | .ok a => some ⟨target, a.id, params⟩
  | .error _ => none

theorem animationsOf_animateDeeds (r : Registry) (target : Target) (d : Descriptor)
    (params : PlayParams) :
    animationsOf (r.journal (r.animateDeeds target d params)) =
      (r.animation? target d params).toList := by
  have htacit := animationsOf_tacit r (tacit_internDeeds r d)
  rw [animateDeeds, animation?, animate]
  rcases r.intern d with ⟨r', e | a⟩
  · exact htacit
  · obtain ⟨r'', hjournal⟩ := journal_concat r (r.internDeeds d)
      (.message (.animate ⟨target, a.id, params⟩))
    simp only [hjournal, animationsOf_append, htacit]
    rfl

theorem animationsOf_joinDeeds (r : Registry) (session : SessionId) (captured : List Handle) :
    animationsOf (r.journal (joinDeeds session captured)) = [] := by
  obtain ⟨r', hjournal⟩ := journal_concat r (captured.map .retain) (.join session captured)
  rw [joinDeeds, hjournal, animationsOf_append, animationsOf_tacit r (tacit_map_retain captured)]
  rfl

theorem animationsOf_roundJournal (r : Registry) : animationsOf r.roundJournal = [] :=
  animationsOf_tacit _ (tacit_releaseAllDeeds _ _)

end Registry

open Registry (animationsOf)

/-! ## Announced animations -/

/-- The animation that a move announces, if it is a call that succeeds. -/
def Hub.animation? (h : Hub) : Move → Option Animate
  | .animate target d params => h.registry.animation? target d params
  | _ => none

theorem Hub.history_step (h : Hub) (move : Move) : ∃ more,
    (h.step move).history = h.history ++ more ∧
      animationsOf more = (h.animation? move).toList := by
  have hnothing : h.history = h.history ++ [] := (List.append_nil _).symm
  have hretain (more : List Handle) := Registry.animationsOf_tacit h.registry
    (Registry.tacit_map_retain more)
  cases move with
  | intern d => exact ⟨_, rfl, Registry.animationsOf_tacit _ (Registry.tacit_internDeeds _ d)⟩
  | animate target d params => exact ⟨_, rfl, Registry.animationsOf_animateDeeds _ _ _ _⟩
  | lookup id => exact ⟨_, rfl, hretain _⟩
  | copy i => exact ⟨_, rfl, hretain _⟩
  | part i k => exact ⟨_, rfl, hretain _⟩
  | drop i =>
      rw [step]
      split
      · next a _ =>
          exact ⟨_, rfl, Registry.animationsOf_tacit _ (Registry.tacit_releaseDeeds _ a)⟩
      · exact ⟨[], hnothing, rfl⟩
  | connect rank => exact ⟨_, rfl, Registry.animationsOf_joinDeeds _ _ _⟩
  | disconnect session =>
      rw [step, markEnded]
      split <;> exact ⟨[], hnothing, rfl⟩
  | close session =>
      rw [step, markEnded]
      split <;> exact ⟨[], hnothing, rfl⟩
  | receive session => exact ⟨[], hnothing, rfl⟩
  | flush =>
      refine ⟨_, rfl, ?_⟩
      rw [Registry.animationsOf_append, Registry.animationsOf_roundJournal,
        Registry.animationsOf_roundJournal]
      rfl

/-! ## Delivered animations -/

/-- A session is sent the table of the moment at which it has connected, followed by a
part of what is announced from then on; or nothing yet. -/
theorem Hub.sentTo_of_connect {h h' : Hub} {rank : ContentId → ℕ}
    {more : List (OutboundEvent × Registry)} (hs : h.Steady) (hf : h.Fair) (hf' : h'.Fair)
    (hmore : h'.history = (h.step (.connect rank)).history ++ more) :
    h'.sentTo h.broadcaster.nextId = [] ∨ ∃ part, part <+: messagesOf more ∧
      h'.sentTo h.broadcaster.nextId = .snapshot h.registry.snapshot :: part := by
  have hlength : (h.step (.connect rank)).history.length = h.history.length + 1 := by
    obtain ⟨held, r, hjoin, -⟩ := history_connect hs rank
    rw [hjoin, List.length_append, List.length_singleton]
  have hdrop (n : ℕ) : (h'.history.take n).drop (h.history.length + 1) <+: more := by
    rw [List.drop_take, hmore, List.drop_left' hlength]
    exact List.take_prefix _ more
  rw [hf'.sentTo_eq, streamOf, stream_of_connect hf hs ⟨more, hmore.symm⟩]
  split
  · exact Or.inr ⟨_, (hdrop _).filterMap _, rfl⟩
  · exact Or.inl rfl

/-- A client of a session carries out the animations among its messages. -/
theorem Hub.client_animated {h : Hub} (hs : h.Steady) (hf : h.Fair) (tileSize : ℕ)
    (rank : ContentId → ℕ) (asks : ℕ → List Replica.Request) (session : SessionId) (n : ℕ) :
    (Replica.follow rank asks 0 (.empty tileSize) ((h.sentTo session).take n)).Animated
      (((h.sentTo session).take n).filterMap Message.animation?) := by
  have hnothing : (Replica.follow rank asks 0 (.empty tileSize) []).Animated [] :=
    (Replica.animated_empty tileSize).askAll (asks 0)
  obtain ⟨K, hchronicle, -⟩ : ∃ K, Chronicle Ledger.empty (h.history.take (h.reach session)) K ∧
      Chronicle K (h.history.drop (h.reach session)) h.registry.ledger := by
    refine Chronicle.split ?_
    rw [List.take_append_drop]
    exact hs.chronicle
  rw [hf.sentTo_eq, Hub.streamOf]
  rcases hchronicle.stream session with hnone | ⟨r, st, hstream, ⟨out, hr⟩, hfaithful, -⟩
  · rw [hnone, List.map_nil, List.take_nil]
    exact hnothing
  · rw [hstream, List.map_cons]
    cases n with
    | zero => exact hnothing
    | succ n =>
        rw [List.take_succ_cons, ← List.map_take]
        exact Replica.animated_stream tileSize rank asks hr (hfaithful.take n)

namespace Scene

variable {s : Scene}

/-- The animation that a call announces, if it succeeds. -/
def animation? (s : Scene) : Act → Option Animate
  | .call move => s.hub.animation? move
  | .sprite _ => none

/-- The animations of the successful calls among these, in order, each with the id of
the instance that the call has handed out. -/
def animations (s : Scene) : List Act → List Animate
  | [] => []
  | act :: acts => (s.animation? act).toList ++ (s.step act).animations acts

theorem history_step (s : Scene) (act : Act) : ∃ more,
    (s.step act).hub.history = s.hub.history ++ more ∧
      animationsOf more = (s.animation? act).toList := by
  cases act with
  | call move => exact s.hub.history_step move
  | sprite call =>
      have hc := s.changedBy_stepSprite call
      exact ⟨_, congrArg Hub.history hc.flat, Registry.animationsOf_tacit _ hc.tacit⟩

theorem history_foldl (s : Scene) (acts : List Act) : ∃ more,
    (acts.foldl step s).hub.history = s.hub.history ++ more ∧
      animationsOf more = s.animations acts := by
  induction acts generalizing s with
  | nil => exact ⟨[], (List.append_nil _).symm, rfl⟩
  | cons act acts ih =>
      obtain ⟨first, hfirst, hone⟩ := s.history_step act
      obtain ⟨rest, hrest, hothers⟩ := ih (s.step act)
      refine ⟨first ++ rest, ?_, ?_⟩
      · rw [List.foldl_cons, hrest, hfirst, List.append_assoc]
      · rw [Registry.animationsOf_append, hone, hothers, animations]

/-- In every run, what is announced after a session has connected has one animation
for each successful call since then, in order.  A session's messages are a table and a
part of these announcements from the first on.  A client that starts with an empty
replica and carries out any part of its messages, with any requests in between, makes
exactly the changes of icons that are the animations in that part, in order, and no
animation waits. -/
theorem animations_carriedOut (maxDepth tileSize : ℕ) (before : List Act) (rank : ContentId → ℕ)
    (after : List Act) (tableRank : ContentId → ℕ) (asks : ℕ → List Replica.Request) (n : ℕ) :
    let joining := run maxDepth before
    let session := joining.hub.broadcaster.nextId
    let joined := joining.step (.call (.connect rank))
    let s := after.foldl step joined
    let applied := (s.hub.sentTo session).take n
    let client := Replica.follow tableRank asks 0 (.empty tileSize) applied
    ∃ announced,
      s.hub.published = joined.hub.published ++ announced ∧
      announced.filterMap Message.animation? = joined.animations after ∧
      (applied = [] ∨ ∃ part, part <+: announced ∧
        applied = .snapshot joining.hub.registry.snapshot :: part) ∧
      applied.filterMap Message.animation? <+: joined.animations after ∧
      List.Forall₂ client.CarriesOut client.animations (applied.filterMap Message.animation?) ∧
      ∀ id, ∀ callback ∈ client.waitingFor id, callback.isAnimation = false := by
  intro joining session joined s applied client
  have hs : joining.flat.Steady := steady_run maxDepth before
  have hf : joining.flat.Fair := fair_run maxDepth before
  have hsteady : s.flat.Steady := steady_foldl (steady_step hs _) after
  have hfair : s.flat.Fair := fair_foldl (steady_step hs _) (fair_step hs hf _) after
  obtain ⟨more, hmore, hcalls⟩ := joined.history_foldl after
  have hpart : applied = [] ∨ ∃ part, part <+: messagesOf more ∧
      applied = .snapshot joining.hub.registry.snapshot :: part := by
    rcases Hub.sentTo_of_connect hs hf hfair hmore with hnone | ⟨part, hprefix, hsent⟩
    · exact Or.inl ((congrArg (List.take n) hnone).trans List.take_nil)
    · have happlied : applied = (Message.snapshot joining.hub.registry.snapshot :: part).take n :=
        congrArg (List.take n) hsent
      cases n with
      | zero => exact Or.inl happlied
      | succ n => exact Or.inr ⟨part.take n, (List.take_prefix n part).trans hprefix, happlied⟩
  have hanimated := Hub.client_animated hsteady hfair tileSize tableRank asks session n
  refine ⟨messagesOf more, ?_, hcalls, hpart, ?_, hanimated.carried, hanimated.idle⟩
  · exact (congrArg messagesOf hmore).trans List.filterMap_append
  · rcases hpart with hnone | ⟨part, hprefix, hpart⟩
    · rw [hnone]
      exact List.nil_prefix
    · rw [hpart, ← hcalls]
      exact hprefix.filterMap _

end Scene
end AppearanceSync
