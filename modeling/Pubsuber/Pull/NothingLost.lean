import Pubsuber.Ack.OnRequest
import Pubsuber.Pull.Session

/-!
# No message is lost

The server loses a message to a request for acknowledgement, such a request to a
`Done` with `Ack`, and that to the user's first call on a message that it was given.
So whatever fails, a message that the server no longer has was acknowledged. Where
the rounds return, the messages that the server still has in the end are exactly the
others.
-/

namespace Pubsuber

open HashContainer StateMachine

/-! ## The ack iterator -/

theorem IteratorState.succeeded_of_run {s t : IteratorState}
    {events : List (HashOrder × IteratorEvent)} (h : run IteratorState.step s events = some t)
    (hreturns : Along IteratorState.step IteratorState.RoundReturns s events)
    (hs : ∀ c ∈ s.calls, c.succeeded = true) : ∀ c ∈ t.calls, c.succeeded = true := by
  refine run_invariant_along (fun u => ∀ c ∈ u.calls, c.succeeded = true) ?_ h hreturns hs
  rintro s ⟨order, e⟩ t hs hr hst
  rcases IteratorState.step_cases hst with ⟨ackID, nextAck, rfl, rfl⟩ |
    ⟨ackID, sec, action, rfl, rfl⟩ | ⟨rfl, -, rfl⟩ | ⟨rfl, -, rfl⟩ |
    ⟨pseudoNow, results, acks, nacks, rfl, hphase, rfl⟩
  · exact hs
  · exact hs
  · exact hs
  · exact hs
  · simp only [IteratorState.RoundReturns, hphase] at hr
    obtain ⟨sleep, hsleep⟩ := hr
    intro c hc
    rcases List.mem_append.mp hc with hc | hc
    · exact hs c hc
    · exact s.iterator.finishRound_succeeded order acks nacks pseudoNow results hsleep c hc

/-! ## The messages of one response -/

/-- A step is silent about ids that are not of the response. -/
theorem Sound.donesFor_step {ids : List AckID} {s t : PullState} (h : Sound ids s) {e : PullEvent}
    (hst : s.step e = some t) {ackID : AckID} (hforeign : ackID ∉ ids) :
    donesFor ackID t.log = donesFor ackID s.log := by
  have hlive : ∀ m ∈ s.live, m.ackID ≠ ackID := by
    rintro m hm rfl
    refine hforeign (h.accounted.subset ?_)
    exact List.mem_append_right _ (List.mem_append_left _ (List.mem_map_of_mem hm))
  have hresolved : ∀ m ∈ s.live, ∀ action, ∀ e ∈ m.resolution action ++ [.destroyed m.ackID],
      e.ackID ≠ ackID := by
    intro m hm action e he
    rcases List.mem_append.mp he with he | he
    · rw [MessageImpl.ackID_of_resolution he]
      exact hlive m hm
    · rw [List.mem_singleton.mp he]
      exact hlive m hm
  cases PullState.effect_of_step hst with
  | registered k receiveTime hunreg hvec hheld hlog =>
    rw [hlog, (unchanged_watched ackID k s.log).2]
  | handed m hdone hunreg hvec hheld hlog =>
    rw [hlog, (unchanged_handed ackID m.ackID s.log).2]
  | called m action hm hunreg hvec hheld hlog =>
    have hmem : m ∈ s.live := List.mem_append_right _ hm
    rw [hlog, (unchanged_of_other (fun e he => ?_) s.log).2]
    rcases List.mem_cons.mp he with rfl | he
    · exact hlive m hmem
    · rw [MessageImpl.ackID_of_resolution he]
      exact hlive m hmem
  | dropped m hm hunreg hvec hheld hlog =>
    have hmem : m ∈ s.live := List.mem_append_right _ hm
    rw [hlog, (unchanged_of_other (hresolved m hmem .nack) s.log).2]
  | unwound m hunreg hvec hheld hlog =>
    have hmem : m ∈ s.live := List.mem_append_left _ (by rw [hvec]; exact List.mem_cons_self)
    rw [hlog, (unchanged_of_other (hresolved m hmem .nack) s.log).2]
  | nothing hunreg hvec hheld hlog => rw [hlog]

theorem Sound.first_of_ack {ids : List AckID} {s : PullState} (h : Sound ids s) {ackID : AckID}
    (hmem : ackID ∈ ids) (hack : .ack ∈ donesFor ackID s.log) :
    (callsFor ackID s.log).head? = some .ack := by
  rcases List.mem_append.mp (h.accounted.symm.subset hmem) with hmem | hmem
  · rw [(h.untouched ackID hmem).2] at hack
    contradiction
  · rcases List.mem_append.mp hmem with hmem | hmem
    · obtain ⟨m, hm, rfl⟩ := List.mem_map.mp hmem
      rw [(h.answered m hm).dones] at hack
      simpa using hack
    · rw [h.resolved ackID hmem, List.mem_singleton] at hack
      cases hfirst : (callsFor ackID s.log).head? with
      | none => simp [hfirst] at hack
      | some first => simpa [hfirst] using hack.symm

theorem Sound.dones_of_first {ids : List AckID} {s : PullState} (h : Sound ids s)
    {ackID : AckID} (hmem : ackID ∈ ids) {action : DoneAction}
    (hfirst : (callsFor ackID s.log).head? = some action) : donesFor ackID s.log = [action] := by
  rcases List.mem_append.mp (h.accounted.symm.subset hmem) with hmem | hmem
  · rw [(h.untouched ackID hmem).1] at hfirst
    contradiction
  · rcases List.mem_append.mp hmem with hmem | hmem
    · obtain ⟨m, hm, rfl⟩ := List.mem_map.mp hmem
      rw [(h.answered m hm).dones, hfirst]
      rfl
    · rw [h.resolved ackID hmem, hfirst]
      rfl

namespace Session

variable {μ : Type} {s : Session μ} {name : String} {ackDist : AckDistribution}

/-! ## The session -/

/-- What holds of a session at any time. -/
structure Kept (name : String) (ackDist : AckDistribution) (s : Session μ) : Prop where
  run : run IteratorState.step (.start (.create name ackDist)) s.trace = some s.iterator
  fresh : (s.handedOut.map Prod.fst).Nodup
  sound : ∀ r ∈ s.responses, Sound r.ids r.pull
  handed : ∀ r ∈ s.responses, CalledWhenHanded r.pull
  actions : ∀ r ∈ s.responses, ∀ ackID ∈ r.ids,
    actionsOf ackID (s.trace.map Prod.snd) = donesFor ackID r.pull.log
  known : ∀ ackID ∈ doneIds (s.trace.map Prod.snd), ackID ∈ s.handedOut.map Prod.fst
  owned : ∀ pair ∈ s.handedOut, pair.2 ∈ s.published
  old : ∀ message ∈ s.stored, message ∈ s.published
  issued : ∀ request ∈ s.executed, request ∈ s.iterator.calls.map Call.request
  removed : ∀ message ∈ s.published,
    message ∈ s.stored ↔ ∀ request ∈ s.executed, ¬ s.Acknowledges request message

namespace Kept

/-- Every id in a request for acknowledgement was resolved with `Ack`. -/
theorem acked (h : Kept name ackDist s) {request : Request}
    (hissued : request ∈ s.iterator.calls.map Call.request) (hkind : request.kind = .ack)
    {ackID : AckID} (hmem : ackID ∈ request.ackIDs) :
    .ack ∈ actionsOf ackID (s.trace.map Prod.snd) := by
  obtain ⟨c, hc, rfl⟩ := List.mem_map.mp hissued
  exact onRequest_of_run h.run .ack ackID (.inl (mem_idsOf.mpr ⟨c, hc, hkind, hmem⟩))

theorem publish [DecidableEq μ] (h : Kept name ackDist s) {message : μ}
    (hnew : message ∉ s.published) :
    Kept name ackDist { s with
      stored := message :: s.stored
      published := message :: s.published } where
  run := h.run
  fresh := h.fresh
  sound := h.sound
  handed := h.handed
  actions := h.actions
  known := h.known
  owned pair hpair := List.mem_cons_of_mem _ (h.owned pair hpair)
  old m hm := (List.mem_cons.mp hm).elim (fun heq => heq ▸ List.mem_cons_self)
    fun hm => List.mem_cons_of_mem _ (h.old m hm)
  issued := h.issued
  removed m hm := by
    rcases List.mem_cons.mp hm with rfl | hm
    · -- nothing that was handed out is new
      refine iff_of_true List.mem_cons_self ?_
      rintro request - ⟨-, ackID, -, hpair⟩
      exact hnew (h.owned _ hpair)
    · have hne : m ≠ message := fun heq => hnew (heq ▸ hm)
      rw [List.mem_cons, or_iff_right hne]
      exact h.removed m hm

theorem execute [DecidableEq μ] (h : Kept name ackDist s) {request : Request}
    (hissued : request ∈ s.iterator.calls.map Call.request) :
    Kept name ackDist { s with
      stored := s.stored.filter fun message => ¬ s.Acknowledges request message
      executed := request :: s.executed } where
  run := h.run
  fresh := h.fresh
  sound := h.sound
  handed := h.handed
  actions := h.actions
  known := h.known
  owned := h.owned
  old m hm := h.old m (List.mem_of_mem_filter hm)
  issued := by
    intro request' hmem
    rcases List.mem_cons.mp hmem with rfl | hmem
    · exact hissued
    · exact h.issued request' hmem
  removed m hm := by
    rw [List.mem_filter, h.removed m hm, List.forall_mem_cons, and_comm]
    simp only [decide_not, Bool.not_eq_true', decide_eq_false_iff_not]
    exact Iff.rfl

theorem ackThread (h : Kept name ackDist s) {order : HashOrder} {e : IteratorEvent}
    (he : e.ofAckThread = true) {iterator : IteratorState}
    (hst : s.iterator.step (order, e) = some iterator) :
    Kept name ackDist { s with iterator, trace := s.trace ++ [(order, e)] } := by
  have hnone : doneIds [e] = [] := by
    cases e with
    | addDeadlineWatcher | done => contradiction
    | _ => rfl
  have hactions : ∀ ackID, actionsOf ackID ((s.trace ++ [(order, e)]).map Prod.snd) =
      actionsOf ackID (s.trace.map Prod.snd) := by
    intro ackID
    rw [List.map_append, actionsOf_append, List.append_right_eq_self]
    exact actionsOf_eq_nil.mpr (by simp [hnone])
  exact {
    run := by
      rw [run_concat, h.run]
      exact hst
    fresh := h.fresh
    sound := h.sound
    handed := h.handed
    actions := fun r hr ackID hmem => (hactions ackID).trans (h.actions r hr ackID hmem)
    known := by
      intro ackID hmem
      rw [List.map_append, doneIds_append, List.map_singleton, hnone, List.append_nil] at hmem
      exact h.known ackID hmem
    owned := h.owned
    old := h.old
    issued := fun request hmem => List.map_subset _ (IteratorState.calls_subset_of_step hst)
      (h.issued request hmem)
    removed := h.removed }

/-- An id that was not handed out has not been resolved, so no acknowledgement names it. -/
theorem kind_ne_ack (h : Kept name ackDist s) {request : Request} (hrequest : request ∈ s.executed)
    {ackID : AckID} (hmem : ackID ∈ request.ackIDs)
    (hunknown : ackID ∉ s.handedOut.map Prod.fst) : request.kind ≠ .ack := by
  intro hkind
  refine hunknown (h.known ackID ?_)
  by_contra hnone
  have hacked := h.acked (h.issued request hrequest) hkind hmem
  rw [actionsOf_eq_nil.mpr hnone] at hacked
  contradiction

theorem respond (h : Kept name ackDist s) {pseudoNow : TimePoint} {messages : List (AckID × μ)}
    (hnodup : (messages.map Prod.fst).Nodup)
    (hnew : ∀ ackID ∈ messages.map Prod.fst, ackID ∉ s.handedOut.map Prod.fst)
    (hstored : ∀ message ∈ messages.map Prod.snd, message ∈ s.stored) :
    Kept name ackDist { s with
      responses := s.responses ++
        [⟨messages, .start s.iterator pseudoNow (messages.map Prod.fst)⟩] } := by
  have hout : Session.handedOut { s with
      responses := s.responses ++
        [⟨messages, .start s.iterator pseudoNow (messages.map Prod.fst)⟩] } =
      s.handedOut ++ messages := by simp [handedOut]
  constructor
  case run => exact h.run
  case fresh =>
    rw [hout, List.map_append]
    exact List.nodup_append'.mpr ⟨h.fresh, hnodup, fun k hk hk' => hnew k hk' hk⟩
  case sound =>
    intro r hr
    rcases List.mem_append.mp hr with hr | hr
    · exact h.sound r hr
    · obtain rfl := List.mem_singleton.mp hr
      exact sound_of_run hnodup (run_nil _ _)
  case handed =>
    intro r hr
    rcases List.mem_append.mp hr with hr | hr
    · exact h.handed r hr
    · obtain rfl := List.mem_singleton.mp hr
      exact ⟨by simp [PullState.start], by simp [PullState.start, callsFor]⟩
  case actions =>
    intro r hr ackID hmem
    rcases List.mem_append.mp hr with hr | hr
    · exact h.actions r hr ackID hmem
    · obtain rfl := List.mem_singleton.mp hr
      exact actionsOf_eq_nil.mpr fun hdone => hnew ackID hmem (h.known ackID hdone)
  case known =>
    intro ackID hmem
    rw [hout, List.map_append]
    exact List.mem_append_left _ (h.known ackID hmem)
  case owned =>
    intro pair hpair
    rw [hout] at hpair
    rcases List.mem_append.mp hpair with hpair | hpair
    · exact h.owned pair hpair
    · exact h.old _ (hstored _ (List.mem_map_of_mem hpair))
  case old => exact h.old
  case issued => exact h.issued
  case removed =>
    intro message hmessage
    refine (h.removed message hmessage).trans (forall₂_congr fun request hrequest => ?_)
    refine not_congr ⟨?_, ?_⟩
    · rintro ⟨hkind, ackID, hmem, hpair⟩
      exact ⟨hkind, ackID, hmem, hout ▸ List.mem_append_left _ hpair⟩
    · rintro ⟨hkind, ackID, hmem, hpair⟩
      rw [hout] at hpair
      rcases List.mem_append.mp hpair with hpair | hpair
      · exact ⟨hkind, ackID, hmem, hpair⟩
      · have hunknown := hnew ackID (List.mem_map_of_mem hpair)
        exact absurd hkind (h.kind_ne_ack hrequest hmem hunknown)

theorem split_of_getElem? {responses : List (Response μ)} {number : ℕ} {r : Response μ}
    (hr : responses[number]? = some r) (r' : Response μ) :
    ∃ before after, responses = before ++ r :: after ∧
      responses.set number r' = before ++ r' :: after := by
  obtain ⟨hnumber, hget⟩ := List.getElem?_eq_some_iff.mp hr
  obtain ⟨before, after, hsplit, -, hset⟩ := List.exists_of_set hnumber
  exact ⟨before, after, hget ▸ hsplit, hset⟩

theorem handedOut_set {number : ℕ} {r : Response μ} (hr : s.responses[number]? = some r)
    (pull : PullState) (iterator : IteratorState) (trace : List (HashOrder × IteratorEvent)) :
    Session.handedOut { s with
      iterator
      responses := s.responses.set number { r with pull }
      trace } = s.handedOut := by
  obtain ⟨before, after, hsplit, hset⟩ := split_of_getElem? hr { r with pull }
  rw [handedOut, handedOut, hset, hsplit, List.flatMap_append, List.flatMap_append,
    List.flatMap_cons, List.flatMap_cons]

theorem ids_nodup (h : Kept name ackDist s) {r : Response μ} (hr : r ∈ s.responses) :
    r.ids.Nodup := by
  obtain ⟨before, after, hsplit⟩ := List.append_of_mem hr
  have hnodup := h.fresh
  rw [handedOut, hsplit, List.flatMap_append, List.flatMap_cons, List.map_append,
    List.map_append] at hnodup
  exact (List.nodup_append'.mp (List.nodup_append'.mp hnodup).2.1).1

/-- When a response changes, the others stay, and none of them has any of its ids. -/
theorem mem_set (h : Kept name ackDist s) {number : ℕ} {r r' new : Response μ}
    (hr : s.responses[number]? = some r) (hr' : r' ∈ s.responses.set number new) :
    r' = new ∨ r' ∈ s.responses ∧ ∀ ackID ∈ r'.ids, ackID ∉ r.ids := by
  obtain ⟨before, after, hsplit, hset⟩ := split_of_getElem? hr new
  rw [hset, List.perm_middle.mem_iff, List.mem_cons] at hr'
  refine hr'.imp_right fun hr' => ⟨?_, fun ackID hmem hmem' => ?_⟩
  · rw [hsplit, List.perm_middle.mem_iff]
    exact List.mem_cons_of_mem r hr'
  · have hperm : s.handedOut.Perm (r.messages ++ (before ++ after).flatMap (·.messages)) := by
      rw [handedOut, hsplit]
      exact List.Perm.flatMap_right _ List.perm_middle
    have hnodup := (hperm.map Prod.fst).nodup_iff.mp h.fresh
    rw [List.map_append] at hnodup
    refine List.disjoint_of_nodup_append hnodup hmem' ?_
    obtain ⟨pair, hpair, rfl⟩ := List.mem_map.mp hmem
    exact List.mem_map_of_mem (List.mem_flatMap.mpr ⟨r', hr', hpair⟩)

theorem mem_handedOut {r : Response μ} (hr : r ∈ s.responses) {ackID : AckID}
    (hmem : ackID ∈ r.ids) : ackID ∈ s.handedOut.map Prod.fst := by
  obtain ⟨pair, hpair, rfl⟩ := List.mem_map.mp hmem
  exact List.mem_map_of_mem (List.mem_flatMap.mpr ⟨r, hr, hpair⟩)

theorem sound_view (h : Kept name ackDist s) {r : Response μ} (hr : r ∈ s.responses) :
    Sound r.ids (s.view r) := by
  have hsound := h.sound r hr
  exact ⟨hsound.accounted, hsound.watched, hsound.early, hsound.handed, hsound.untouched,
    hsound.answered, hsound.resolved⟩

theorem donesFor_of_foreign (h : Kept name ackDist s) {r : Response μ} (hr : r ∈ s.responses)
    {e : PullEvent} {pull : PullState} (hst : (s.view r).step e = some pull)
    {told : List (HashOrder × IteratorEvent)} {entries : List Entry}
    (htold : Told (s.view r) pull told entries) {ackID : AckID} (hforeign : ackID ∉ r.ids) :
    donesFor ackID entries = [] := by
  have hsame := (h.sound_view hr).donesFor_step hst hforeign
  rwa [htold.log, donesFor_append, List.append_right_eq_self] at hsame

theorem client (h : Kept name ackDist s) {number : ℕ} {r : Response μ}
    (hr : s.responses[number]? = some r) {e : PullEvent} (he : e.ofClient = true)
    {pull : PullState} (hst : (s.view r).step e = some pull) :
    Kept name ackDist { s with
      iterator := pull.iterator
      responses := s.responses.set number { r with pull }
      trace := s.trace ++ pull.trace } := by
  have hmem : r ∈ s.responses := List.mem_of_getElem? hr
  obtain ⟨told, entries, htold⟩ := Told.of_step he hst
  obtain rfl : pull.trace = told := htold.trace
  have hout := handedOut_set hr pull pull.iterator (s.trace ++ pull.trace)
  have hactions : ∀ ackID, actionsOf ackID ((s.trace ++ pull.trace).map Prod.snd) =
      actionsOf ackID (s.trace.map Prod.snd) ++ donesFor ackID entries := by
    intro ackID
    rw [List.map_append, actionsOf_append, htold.actions]
  have hforeign : ∀ {ackID : AckID}, ackID ∉ r.ids → donesFor ackID entries = [] :=
    h.donesFor_of_foreign hmem hst htold
  constructor
  case run =>
    rw [run_append, h.run]
    exact htold.run
  case fresh =>
    rw [hout]
    exact h.fresh
  case sound =>
    intro r' hr'
    rcases h.mem_set hr hr' with rfl | ⟨hr', -⟩
    · exact (h.sound_view hmem).step (h.ids_nodup hmem) hst
    · exact h.sound r' hr'
  case handed =>
    intro r' hr'
    rcases h.mem_set hr hr' with rfl | ⟨hr', -⟩
    · have hhanded := h.handed r hmem
      exact CalledWhenHanded.step (s := s.view r) ⟨hhanded.held, hhanded.called⟩ hst
    · exact h.handed r' hr'
  case actions =>
    intro r' hr' ackID hk
    rw [hactions]
    rcases h.mem_set hr hr' with rfl | ⟨hr', hother⟩
    · rw [htold.log, donesFor_append, h.actions r hmem ackID hk]
      rfl
    · rw [hforeign (hother ackID hk), List.append_nil]
      exact h.actions r' hr' ackID hk
  case known =>
    intro ackID hk
    rw [hout]
    by_contra hunknown
    refine actionsOf_eq_nil.mp ?_ hk
    rw [hactions, hforeign fun hk => hunknown (mem_handedOut hmem hk), List.append_nil]
    exact actionsOf_eq_nil.mpr fun hk => hunknown (h.known ackID hk)
  case owned =>
    rw [hout]
    exact h.owned
  case old => exact h.old
  case issued =>
    intro request hrequest
    exact List.map_subset _ (IteratorState.calls_subset_of_run htold.run)
      (h.issued request hrequest)
  case removed =>
    unfold Acknowledges
    rw [hout]
    exact h.removed

theorem step [DecidableEq μ] (h : Kept name ackDist s) {e : SessionEvent μ} {t : Session μ}
    (hst : s.step e = some t) : Kept name ackDist t := by
  cases e with
  | publish message =>
    simp only [Session.step] at hst
    split_ifs at hst with hold
    cases hst
    exact h.publish hold
  | respond pseudoNow messages =>
    simp only [Session.step] at hst
    split_ifs at hst with hallowed
    cases hst
    obtain ⟨-, hnodup, hnew, hstored⟩ := hallowed
    exact h.respond hnodup hnew hstored
  | execute request =>
    simp only [Session.step] at hst
    split_ifs at hst with hissued
    cases hst
    exact h.execute hissued
  | client number e =>
    simp only [Session.step] at hst
    split at hst
    · next r hr he =>
      obtain ⟨pull, hpull, rfl⟩ := Option.map_eq_some_iff.mp hst
      exact h.client hr he hpull
    · contradiction
  | ackThread order e =>
    simp only [Session.step] at hst
    split_ifs at hst with he
    obtain ⟨iterator, hiterator, rfl⟩ := Option.map_eq_some_iff.mp hst
    exact h.ackThread he hiterator

end Kept

theorem kept_of_run [DecidableEq μ] {events : List (SessionEvent μ)}
    (h : StateMachine.run Session.step (.start name ackDist) events = some s) :
    Kept name ackDist s := by
  refine run_invariant (Kept name ackDist) (fun _ _ _ hs hst => hs.step hst) h ?_
  constructor <;> simp [Session.start, handedOut, doneIds, doneCalls]

/-! ## What the server removes -/

/-- The user was given the message, under some ack id, and its first call on it was
`Ack`. -/
def Acknowledged (s : Session μ) (message : μ) : Prop :=
  ∃ r ∈ s.responses, ∃ ackID, (ackID, message) ∈ r.messages ∧ ackID ∈ handedIn r.pull.log ∧
    (callsFor ackID r.pull.log).head? = some .ack

theorem Kept.acknowledged (h : Kept name ackDist s) {request : Request}
    (hexecuted : request ∈ s.executed) {message : μ} (hack : s.Acknowledges request message) :
    Acknowledged s message := by
  obtain ⟨hkind, ackID, hmem, hpair⟩ := hack
  obtain ⟨r, hr, hmessage⟩ := List.mem_flatMap.mp hpair
  have hid : ackID ∈ r.ids := List.mem_map_of_mem hmessage
  have hdone := h.acked (h.issued request hexecuted) hkind hmem
  rw [h.actions r hr ackID hid] at hdone
  have hfirst := (h.sound r hr).first_of_ack hid hdone
  refine ⟨r, hr, ackID, hmessage, (h.handed r hr).called ackID ?_, hfirst⟩
  intro hnone
  rw [hnone] at hfirst
  contradiction

/-- Whatever becomes of the calls, the server has removed only messages that the user
acknowledged. -/
theorem acknowledged_of_removed [DecidableEq μ] {events : List (SessionEvent μ)}
    (h : StateMachine.run Session.step (.start name ackDist) events = some s) {message : μ}
    (hpublished : message ∈ s.published) (hremoved : message ∉ s.stored) :
    Acknowledged s message := by
  have hkept := kept_of_run h
  rw [hkept.removed message hpublished] at hremoved
  push Not at hremoved
  obtain ⟨request, hexecuted, hack⟩ := hremoved
  exact hkept.acknowledged hexecuted hack

/-- A message is acknowledged and its id sent, but the answer to the request is lost. -/
def answerLost : List (SessionEvent ℕ) :=
  [.publish 0, .publish 1, .respond 0 [("a", 0), ("b", 1)],
    .client 0 (.addDeadlineWatcher .newestFirst), .client 0 (.addDeadlineWatcher .newestFirst),
    .client 0 .callback, .client 0 .keep, .client 0 (.callbackReturn .newestFirst 1),
    .client 0 (.resolve .newestFirst 2 "b" .ack), .ackThread .newestFirst .mergeInput,
    .ackThread .newestFirst .swapPending,
    .ackThread .newestFirst (.finishRound 3 [.error ⟨"", 4⟩]),
    .execute (.acknowledge "s" ["b"])]

theorem acknowledged_of_removed_answerLost :
    ∃ s, StateMachine.run Session.step (.start "s" emptyDistribution) answerLost = some s ∧
      Acknowledged s 1 := by
  have heval : (StateMachine.run Session.step (.start "s" emptyDistribution) answerLost).map
      (fun s => 1 ∈ s.published && !decide (1 ∈ s.stored)) = some true := by decide +kernel
  obtain ⟨s, hrun, hs⟩ := Option.map_eq_some_iff.mp heval
  simp only [Bool.and_eq_true, Bool.not_eq_true', decide_eq_true_eq, decide_eq_false_iff_not] at hs
  exact ⟨s, hrun, acknowledged_of_removed hrun hs.1 hs.2⟩

def RoundReturns (s : Session μ) : SessionEvent μ → Prop
  | .ackThread order e => s.iterator.RoundReturns (order, e)
  | _ => True

instance (s : Session μ) : (e : SessionEvent μ) → Decidable (s.RoundReturns e)
  | .ackThread order e => inferInstanceAs (Decidable (s.iterator.RoundReturns (order, e)))
  | .publish _ => .isTrue trivial
  | .respond _ _ => .isTrue trivial
  | .execute _ => .isTrue trivial
  | .client _ _ => .isTrue trivial

theorem along_trace [DecidableEq μ] {events : List (SessionEvent μ)}
    (h : StateMachine.run Session.step (.start name ackDist) events = some s)
    (hreturns : Along Session.step RoundReturns (.start name ackDist) events) :
    Along IteratorState.step IteratorState.RoundReturns (.start (.create name ackDist))
      s.trace := by
  refine (run_invariant_along (fun s => Kept name ackDist s ∧ Along IteratorState.step
    IteratorState.RoundReturns (.start (.create name ackDist)) s.trace) ?_ h hreturns
    ⟨kept_of_run (run_nil _ _), trivial⟩).2
  rintro s e t ⟨hkept, halong⟩ hr hst
  refine ⟨hkept.step hst, ?_⟩
  -- what comes after the trace so far, from the iterator as it is
  have happend : ∀ told, Along IteratorState.step IteratorState.RoundReturns s.iterator told →
      Along IteratorState.step IteratorState.RoundReturns (.start (.create name ackDist))
        (s.trace ++ told) := by
    intro told htold
    refine (along_append _ _ _ _ _).mpr ⟨halong, fun i hi => ?_⟩
    rw [hkept.run] at hi
    cases hi
    exact htold
  cases e with
  | publish message =>
    simp only [Session.step] at hst
    split_ifs at hst
    cases hst
    exact halong
  | respond pseudoNow messages =>
    simp only [Session.step] at hst
    split_ifs at hst
    cases hst
    exact halong
  | execute request =>
    simp only [Session.step] at hst
    split_ifs at hst
    cases hst
    exact halong
  | client number e =>
    simp only [Session.step] at hst
    split at hst
    · next r hnumber he =>
      obtain ⟨pull, hpull, rfl⟩ := Option.map_eq_some_iff.mp hst
      obtain ⟨told, entries, htold⟩ := Told.of_step he hpull
      obtain rfl : pull.trace = told := htold.trace
      exact happend pull.trace (along_of_forall _ htold.noRound _)
    · contradiction
  | ackThread order e =>
    simp only [Session.step] at hst
    split_ifs at hst
    obtain ⟨iterator, -, rfl⟩ := Option.map_eq_some_iff.mp hst
    exact happend [(order, e)] ⟨hr, fun _ _ => trivial⟩

/-- Nothing waits to be acknowledged, and the server has executed whatever it has
answered with `OK`. -/
structure Settled (s : Session μ) : Prop where
  idle : s.iterator.phase = .idle
  pending : s.iterator.iterator.pendingAckIDs.keys = []
  executed : ∀ c ∈ s.iterator.calls, c.succeeded = true → c.request ∈ s.executed

/-- As long as the ack iterator is alive: when the rounds return and nothing waits to be
acknowledged any more, the server still has exactly the messages that the user has not
acknowledged. -/
theorem stored_iff_of_settled [DecidableEq μ] {events : List (SessionEvent μ)}
    (h : StateMachine.run Session.step (.start name ackDist) events = some s)
    (hreturns : Along Session.step RoundReturns (.start name ackDist) events)
    (hsettled : Settled s) {message : μ} (hpublished : message ∈ s.published) :
    message ∈ s.stored ↔ ¬ Acknowledged s message := by
  have hkept := kept_of_run h
  have halong := along_trace h hreturns
  rw [hkept.removed message hpublished]
  constructor
  · rintro hnot ⟨r, hr, ackID, hmessage, -, hfirst⟩
    have hid : ackID ∈ r.ids := List.mem_map_of_mem hmessage
    have hone : actionsOf ackID (s.trace.map Prod.snd) = [.ack] := by
      rw [hkept.actions r hr ackID hid]
      exact (hkept.sound r hr).dones_of_first hid hfirst
    -- the one copy of the id is in a request
    have hstart : ∀ action, (IteratorState.start (.create name ackDist)).copies action
        ackID = 0 := IteratorState.copies_eq_zero (run_nil _ _) (by simp [doneIds, doneCalls])
    have hcopies := IteratorState.copies_of_run hkept.run halong hstart
      (by rw [hone]; exact le_rfl) .ack
    have hsent : ackID ∈ idsOf .ack s.iterator.calls := by
      rw [hone] at hcopies
      simp only [IteratorState.copies, hsettled.idle, Phase.localIds, Phase.acks,
        ModAckIterator.pendingIds, hsettled.pending, List.count_nil, add_zero] at hcopies
      exact List.count_pos_iff.mp (by rw [DoneAction.kind] at hcopies; simp [hcopies])
    obtain ⟨c, hc, hkind, hmem⟩ := mem_idsOf.mp hsent
    have hsucceeded := IteratorState.succeeded_of_run hkept.run halong
      (by simp [IteratorState.start]) c hc
    exact hnot c.request (hsettled.executed c hc hsucceeded)
      ⟨hkind, ackID, hmem, List.mem_flatMap.mpr ⟨r, hr, hmessage⟩⟩
  · intro hnot request hexecuted hack
    exact hnot (hkept.acknowledged hexecuted hack)

def oneAcknowledged : List (SessionEvent ℕ) :=
  [.publish 0, .publish 1, .respond 0 [("a", 0), ("b", 1)],
    .client 0 (.addDeadlineWatcher .newestFirst), .client 0 (.addDeadlineWatcher .newestFirst),
    .client 0 .callback, .client 0 (.resolve .newestFirst 1 "b" .ack),
    .client 0 (.callbackReturn .newestFirst 1), .client 0 .callback,
    .client 0 (.callbackReturn .newestFirst 2), .ackThread .newestFirst .mergeInput,
    .ackThread .newestFirst .swapPending,
    .ackThread .newestFirst (.finishRound 3 [okAt 3, okAt 4]),
    .execute (.acknowledge "s" ["b"]), .execute (.modifyAckDeadline "s" 0 ["a"])]

theorem stored_iff_of_settled_oneAcknowledged :
    ∃ s, StateMachine.run Session.step (.start "s" emptyDistribution) oneAcknowledged = some s ∧
      (0 ∈ s.stored ↔ ¬ Acknowledged s 0) ∧ (1 ∈ s.stored ↔ ¬ Acknowledged s 1) := by
  have heval : (StateMachine.run Session.step (.start "s" emptyDistribution) oneAcknowledged).map
      (fun s => (s.iterator.step (.newestFirst, .mergeInput)).isSome &&
        s.iterator.iterator.pendingAckIDs.keys == [] && s.published == [1, 0] &&
        s.iterator.calls.all fun c => decide (c.request ∈ s.executed)) = some true := by
    decide +kernel
  obtain ⟨s, hrun, hs⟩ := Option.map_eq_some_iff.mp heval
  simp only [Bool.and_eq_true, beq_iff_eq, List.all_eq_true, decide_eq_true_eq] at hs
  obtain ⟨⟨⟨hphase, hpending⟩, hpublished⟩, hexecuted⟩ := hs
  have hidle : s.iterator.phase = .idle := by
    cases hp : s.iterator.phase with
    | idle => rfl
    | swapped | stuck => simp [IteratorState.step, hp] at hphase
  have hsettled : Settled s := ⟨hidle, hpending, fun c hc _ => hexecuted c hc⟩
  have hreturns : Along Session.step RoundReturns (.start "s" emptyDistribution)
      oneAcknowledged := by decide +kernel
  exact ⟨s, hrun, stored_iff_of_settled hrun hreturns hsettled (by simp [hpublished]),
    stored_iff_of_settled hrun hreturns hsettled (by simp [hpublished])⟩

end Session

end Pubsuber
