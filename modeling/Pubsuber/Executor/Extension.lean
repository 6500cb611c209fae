import Pubsuber.Executor.WakeUp

/-!
# No extension of a resolved message

`MergeInput` and the swap of the pending sets are two critical sections. A
message that is registered and resolved between them is sent by the round while
it is still in the input, and the next iteration starts to keep it alive.
-/

namespace Pubsuber

open HashContainer StateMachine

def watchedBy (it : ModAckIteratorPtr) (events : List (HashOrder × AckThreadEvent)) :
    List AckID :=
  events.filterMap fun
    | (_, .addDeadlineWatcher it' ackID _) => if it' = it then some ackID else none
    | _ => none

def watchedByAny (events : List (HashOrder × AckThreadEvent)) : List AckID :=
  events.filterMap fun
    | (_, .addDeadlineWatcher _ ackID _) => some ackID
    | _ => none

/-- Deliveries have distinct ids, and a message is resolved only after it was
registered with its iterator. -/
structure ProperMessages (events : List (HashOrder × AckThreadEvent)) : Prop where
  distinct : (watchedByAny events).Nodup
  registered : ∀ before order it ackID sec action after,
    events = before ++ (order, .done it ackID sec action) :: after →
    ackID ∈ watchedBy it before

theorem watchedBy_append (it : ModAckIteratorPtr)
    (events events' : List (HashOrder × AckThreadEvent)) :
    watchedBy it (events ++ events') = watchedBy it events ++ watchedBy it events' :=
  List.filterMap_append

theorem watchedByAny_append (events events' : List (HashOrder × AckThreadEvent)) :
    watchedByAny (events ++ events') = watchedByAny events ++ watchedByAny events' :=
  List.filterMap_append

theorem watchedBy_sublist (it : ModAckIteratorPtr)
    (events : List (HashOrder × AckThreadEvent)) :
    (watchedBy it events).Sublist (watchedByAny events) := by
  induction events with
  | nil => exact List.Sublist.refl _
  | cons e events ih =>
    obtain ⟨order, e⟩ := e
    cases e with
    | addDeadlineWatcher it' ackID nextAck =>
      by_cases h : it' = it
      · simpa [watchedBy, watchedByAny, List.filterMap_cons, h] using ih.cons_cons ackID
      · simpa [watchedBy, watchedByAny, List.filterMap_cons, h] using ih.cons ackID
    | _ => exact ih

/-- An id belongs to one iterator. -/
theorem watchedBy_unique {events : List (HashOrder × AckThreadEvent)}
    (h : (watchedByAny events).Nodup) {it it' : ModAckIteratorPtr} {ackID : AckID}
    (hit : ackID ∈ watchedBy it events) (hit' : ackID ∈ watchedBy it' events) : it = it' := by
  induction events with
  | nil => simp [watchedBy] at hit
  | cons e events ih =>
    obtain ⟨order, e⟩ := e
    cases e with
    | addDeadlineWatcher q k nextAck =>
      have hcons : (k :: watchedByAny events).Nodup := h
      obtain ⟨hk, hnodup⟩ := List.nodup_cons.mp hcons
      have hmem : ∀ {p}, ackID ∈ watchedBy p ((order, .addDeadlineWatcher q k nextAck) :: events) →
          (q = p ∧ ackID = k) ∨ ackID ∈ watchedBy p events := by
        intro p hp
        by_cases hqp : q = p
        · have hp : ackID ∈ k :: watchedBy p events := by
            simpa [watchedBy, List.filterMap_cons, hqp] using hp
          exact (List.mem_cons.mp hp).imp_left fun h => ⟨hqp, h⟩
        · exact .inr (by simpa [watchedBy, List.filterMap_cons, hqp] using hp)
      rcases hmem hit with ⟨rfl, rfl⟩ | h1
      · rcases hmem hit' with ⟨rfl, -⟩ | h2
        · rfl
        · exact absurd ((watchedBy_sublist _ _).subset h2) hk
      · rcases hmem hit' with ⟨rfl, rfl⟩ | h2
        · exact absurd ((watchedBy_sublist _ _).subset h1) hk
        · exact ih hnodup h1 h2
    | _ => exact ih h hit hit'

theorem ProperMessages.of_append {events events' : List (HashOrder × AckThreadEvent)}
    (h : ProperMessages (events ++ events')) : ProperMessages events where
  distinct := by
    have := h.distinct
    rw [watchedByAny_append] at this
    exact (List.nodup_append.mp this).1
  registered before order it ackID sec action after heq :=
    h.registered before order it ackID sec action (after ++ events') (by simp [heq])

namespace AckThread

variable (it : ModAckIteratorPtr)

/-- What an event means to an iterator: nothing, some merges, or an event of its own. -/
inductive Means (s : AckThread) (order : HashOrder) :
    AckThreadEvent → List (HashOrder × IteratorEvent) → Prop
  | nothing {e : AckThreadEvent} (hwatched : watchedBy it [(order, e)] = []) : Means s order e []
  | merges {e : AckThreadEvent} (hwatched : watchedBy it [(order, e)] = []) (n : ℕ) :
    Means s order e (List.replicate n (order, .mergeInput))
  | addDeadlineWatcher (ackID : AckID) (nextAck : TimePoint) :
    Means s order (.addDeadlineWatcher it ackID nextAck)
      [(order, .addDeadlineWatcher ackID nextAck)]
  | done (ackID : AckID) (sec : ℤ) (action : DoneAction) :
    Means s order (.done it ackID sec action) [(order, .done ackID sec action)]
  | swapPending {rest : List ModAckIteratorPtr} {sleep : ℤ}
    (hpc : s.pc = .processing (it :: rest) sleep) :
    Means s order .swapPending [(order, .swapPending)]
  | finishRound (pseudoNow : TimePoint) (results : List CallResult) :
    Means s order (.finishRound pseudoNow results) [(order, .finishRound pseudoNow results)]

theorem mergesOf_eq_replicate (s : AckThread) (order : HashOrder) :
    ∃ n, s.mergesOf it order = List.replicate n (order, .mergeInput) := by
  unfold mergesOf
  exact ⟨_, List.map_const' ..⟩

theorem means_eventsFor (s : AckThread) (order : HashOrder) (e : AckThreadEvent) :
    Means it s order e (s.eventsFor it (order, e)) := by
  obtain ⟨n, hn⟩ := s.mergesOf_eq_replicate it order
  cases e with
  | addDeadlineWatcher it' ackID nextAck =>
    by_cases hit : it' = it
    · subst hit
      simpa [eventsFor] using Means.addDeadlineWatcher (s := s) ackID nextAck
    · simpa [eventsFor, hit] using Means.nothing (by simp [watchedBy, hit])
  | done it' ackID sec action =>
    by_cases hit : it' = it
    · subst hit
      simpa [eventsFor] using Means.done (s := s) ackID sec action
    · simpa [eventsFor, hit] using Means.nothing rfl
  | check | lockAgain =>
    simp only [eventsFor, hn]
    split
    · split_ifs
      · exact .nothing rfl
      · exact .merges rfl n
    · exact .nothing rfl
  | swapPending =>
    simp only [eventsFor]
    split
    · rename_i it' rest sleep hpc
      split_ifs with hit
      · exact .swapPending (hit ▸ hpc)
      · exact .nothing rfl
    · exact .nothing rfl
  | finishRound pseudoNow results =>
    simp only [eventsFor]
    split
    · split_ifs
      · exact .finishRound pseudoNow results
      · exact .nothing rfl
    · exact .nothing rfl
  | _ => exact .nothing rfl

theorem watchedIds_eventsFor (s : AckThread) (e : HashOrder × AckThreadEvent) :
    watchedIds ((s.eventsFor it e).map Prod.snd) = watchedBy it [e] := by
  obtain ⟨order, e⟩ := e
  have hmeans := s.means_eventsFor it order e
  generalize s.eventsFor it (order, e) = l at hmeans ⊢
  cases hmeans with
  | nothing hwatched => exact hwatched.symm
  | merges hwatched n => simp [hwatched, watchedIds]
  | addDeadlineWatcher ackID nextAck => simp [watchedIds, watchedBy]
  | done => rfl
  | swapPending => rfl
  | finishRound => rfl

theorem done_eventsFor {s : AckThread} {e : HashOrder × AckThreadEvent}
    {before after : List IteratorEvent} {ackID : AckID} {sec : ℤ} {action : DoneAction}
    (h : (s.eventsFor it e).map Prod.snd = before ++ .done ackID sec action :: after) :
    before = [] ∧ e.2 = .done it ackID sec action := by
  obtain ⟨order, e⟩ := e
  have hmeans := s.means_eventsFor it order e
  have hmem : IteratorEvent.done ackID sec action ∈ (s.eventsFor it (order, e)).map Prod.snd := by
    simp [h]
  generalize s.eventsFor it (order, e) = l at hmeans h hmem
  cases hmeans with
  | nothing => simp at hmem
  | merges hwatched n => simp at hmem
  | addDeadlineWatcher => simp at hmem
  | done ackID' sec' action' =>
    obtain ⟨rfl, rfl, rfl⟩ : ackID = ackID' ∧ sec = sec' ∧ action = action' := by
      simpa using hmem
    have hlength := congrArg List.length h
    simp only [List.length_map, List.length_append, List.length_cons, List.length_nil] at hlength
    exact ⟨List.eq_nil_of_length_eq_zero (by omega), rfl⟩
  | swapPending => simp at hmem
  | finishRound => simp at hmem

theorem trace_concat (s : AckThread) (events : List (HashOrder × AckThreadEvent))
    (e : HashOrder × AckThreadEvent) :
    trace it s (events ++ [e]) =
      trace it s events ++ (run step s events).elim [] (·.eventsFor it e) := by
  induction events generalizing s with
  | nil =>
    cases h : s.step e <;> simp [trace, h]
  | cons e' events ih =>
    rw [List.cons_append, trace, trace, run_cons]
    cases s.step e' with
    | none => simp
    | some t => simp [ih t]

theorem watchedIds_trace {s t : AckThread} {events : List (HashOrder × AckThreadEvent)}
    (h : run step s events = some t) :
    watchedIds ((trace it s events).map Prod.snd) = watchedBy it events := by
  induction events generalizing s with
  | nil => rfl
  | cons e events ih =>
    obtain ⟨u, hu, ht⟩ := Option.bind_eq_some_iff.mp h
    rw [trace, hu, List.map_append, watchedIds_append, watchedIds_eventsFor]
    change watchedBy it [e] ++ watchedIds ((trace it u events).map Prod.snd) = _
    rw [ih ht, ← watchedBy_append]
    rfl

theorem properUse_trace {s t : AckThread} {events : List (HashOrder × AckThreadEvent)}
    (h : run step s events = some t) (hp : ProperMessages events) :
    ProperUse ((trace it s events).map Prod.snd) := by
  refine (run_history (fun events t => run step s events = some t ∧ (ProperMessages events →
    ProperUse ((trace it s events).map Prod.snd))) ?_ ⟨rfl, fun _ => ?_⟩ h).2 hp
  · intro events u e t ⟨hu, ih⟩ hst
    have hrun : run step s (events ++ [e]) = some t := by
      rw [run_concat, hu]
      exact hst
    refine ⟨hrun, fun hp => ?_⟩
    have hwatched := watchedIds_trace it hrun
    rw [trace_concat, hu, List.map_append] at hwatched ⊢
    refine (ih hp.of_append).append ?_ ?_
    · rw [hwatched]
      exact (watchedBy_sublist it _).nodup hp.distinct
    · intro before ackID sec action after heq
      obtain ⟨rfl, he⟩ := done_eventsFor it heq
      rw [List.append_nil, watchedIds_trace it hu]
      exact hp.registered events e.1 it ackID sec action [] (by rw [← he])
  · constructor
    · simp [trace, watchedIds]
    · intro before ackID sec action after heq
      simp [trace] at heq

def swapped (s : AckThread) (e : HashOrder × AckThreadEvent) : Option ModAckIteratorPtr :=
  match e.2, s.pc with
  | .swapPending, .processing (it :: _) _ => some it
  | _, _ => none

/-- A swap that takes only ids which the last `MergeInput` has seen. -/
def SwapsMerged (s : AckThread) (e : HashOrder × AckThreadEvent) : Prop :=
  ∀ it ∈ s.swapped e, ∀ ackID ∈ (s.heap it).iterator.pendingAckIDs.keys ++
    (s.heap it).iterator.pendingNackIDs.keys, ackID ∉ (s.heap it).iterator.inputAckIDs.keys

instance (s : AckThread) (e : HashOrder × AckThreadEvent) : Decidable (s.SwapsMerged e) :=
  inferInstanceAs (Decidable (∀ it ∈ s.swapped e, _))

theorem along_eventsFor {s : AckThread} {e : HashOrder × AckThreadEvent} (h : s.SwapsMerged e) :
    Along IteratorState.step IteratorState.SwapsMerged (s.view it) (s.eventsFor it e) := by
  obtain ⟨order, e⟩ := e
  have hmeans := s.means_eventsFor it order e
  generalize s.eventsFor it (order, e) = l at hmeans ⊢
  cases hmeans with
  | swapPending hpc =>
    refine ⟨h it ?_, fun _ _ => trivial⟩
    rw [swapped, hpc]
    rfl
  | merges hwatched n =>
    apply along_of_forall
    intro e' he' u
    rw [List.eq_of_mem_replicate he']
    trivial
  | nothing => trivial
  | addDeadlineWatcher | done | finishRound => exact ⟨trivial, fun _ _ => trivial⟩

theorem along_trace {s t : AckThread} {events : List (HashOrder × AckThreadEvent)}
    (h : run step s events = some t) (halong : Along step SwapsMerged s events) :
    Along IteratorState.step IteratorState.SwapsMerged (s.view it) (trace it s events) := by
  induction events generalizing s with
  | nil => trivial
  | cons e events ih =>
    obtain ⟨u, hu, ht⟩ := Option.bind_eq_some_iff.mp h
    rw [trace, hu, along_append]
    refine ⟨along_eventsFor it halong.1, fun v hv => ?_⟩
    rw [view_step hu] at hv
    cases hv
    exact ih ht (halong.2 u hu)

/-- Once a round has sent an id, no iterator watches it and no later request extends
it, in every run whose swaps take only merged ids. -/
theorem resolved_not_extended {object : ModAckIteratorPtr → String × AckDistribution}
    {events : List (HashOrder × AckThreadEvent)} {s : AckThread}
    (h : run step (start object) events = some s) (hproper : ProperMessages events)
    (halong : Along step SwapsMerged (start object) events)
    {before after : List Call} {c : Call} (hcalls : (s.heap it).calls = before ++ c :: after)
    (hc : c.request.kind ≠ .extension) {ackID : AckID} (hid : ackID ∈ c.request.ackIDs) :
    ackID ∉ idsOf .extension after ∧ ∀ it',
      ackID ∉ (s.heap it').iterator.inputAckIDs.keys ∧
      ackID ∉ (s.heap it').iterator.keepAliveAckIDs.keys ∧
      (it' ≠ it → ackID ∉ idsOf .extension (s.heap it').calls) := by
  have hres := resolution_of_run (view_run it h) (along_trace it h halong)
    (properUse_trace it h hproper)
  have hsent : ackID ∈ sentIds (s.view it).calls := by
    refine mem_sentIds.mpr ⟨c, ?_, hc, hid⟩
    rw [view, hcalls]
    simp
  have hwatched : ackID ∈ watchedBy it events := by
    rw [← watchedIds_trace it h]
    exact (properUse_trace it h hproper).watched_of_done (hres.sent_done ackID hsent)
  -- another iterator never had the id
  have hother : ∀ it', it' ≠ it → ackID ∉ watchedBy it' events := fun it' hne hmem =>
    hne (watchedBy_unique hproper.distinct hmem hwatched)
  refine ⟨?_, fun it' => ?_⟩
  · intro hext
    obtain ⟨c', hc', hk', hid'⟩ := mem_idsOf.mp hext
    have hordered : (before ++ c :: after).Pairwise NotExtendedAfter := by
      rw [← hcalls]
      exact hres.ordered
    have hpair := (List.pairwise_cons.mp (List.pairwise_append.mp hordered).2.1).1 c' hc'
    exact hpair hc hk' hid hid'
  · by_cases hne : it' = it
    · subst hne
      exact ⟨hres.sent_input ackID hsent, hres.sent_keepAlive ackID hsent, fun h => absurd rfl h⟩
    · have hknown := known_of_run (view_run it' h)
      have hnone := hother it' hne
      rw [← watchedIds_trace it' h] at hnone
      exact ⟨fun hmem => hnone (hknown.input ackID hmem),
        fun hmem => hnone (hknown.keepAlive ackID hmem),
        fun _ hmem => hnone (hknown.extended ackID hmem)⟩

/-- A message is registered right before the swap. -/
def untilDone : List (HashOrder × AckThreadEvent) :=
  registered ++ [.test, .removeFromActive, .check, .wake false, .lockAgain, .connect,
    .addDeadlineWatcher 1 "a" 9000000000].map (HashOrder.newestFirst, ·)

/-- The rest of that round, and a round 9s later. -/
def afterDone : List (HashOrder × AckThreadEvent) :=
  [.swapPending, .finishRound 0 [okAt 0], .endLoop, .test, .removeFromActive, .check, .connect,
    .swapPending, .finishRound 9000000000 [okAt 9000000000]].map (HashOrder.newestFirst, ·)

def doneBeforeSwap : List (HashOrder × AckThreadEvent) :=
  untilDone ++ (.newestFirst, .done 1 "a" 1 .ack) :: afterDone

/-- The message is acknowledged, kept alive and then extended, with every call
successful. -/
theorem extends_resolved :
    ProperMessages doneBeforeSwap ∧
    ∃ s, run step (start oneIterator) doneBeforeSwap = some s ∧
      (s.heap 1).calls.map Call.request =
        [.acknowledge "s" ["a"], .modifyAckDeadline "s" 10 ["a"]] ∧
      (s.heap 1).calls.all Call.succeeded = true ∧
      "a" ∈ (s.heap 1).iterator.keepAliveAckIDs.keys := by
  refine ⟨⟨by decide, ?_⟩, ?_⟩
  · intro before order it ackID sec action after heq
    have hmem : (order, AckThreadEvent.done it ackID sec action) ∈ doneBeforeSwap := by
      rw [heq]
      simp
    obtain ⟨rfl, rfl, rfl, rfl, rfl⟩ : HashOrder.newestFirst = order ∧ 1 = it ∧ "a" = ackID ∧
        1 = sec ∧ .ack = action := by
      simpa [doneBeforeSwap, untilDone, afterDone, registered, eq_comm] using hmem
    obtain ⟨rfl, -, -⟩ := (List.append_cons_inj_of_notMem (by simp [untilDone, registered])
      (by simp [afterDone])).mp heq
    decide
  · have h : (run step (start oneIterator) doneBeforeSwap).map (fun s =>
        (s.heap 1).calls.map Call.request ==
          [.acknowledge "s" ["a"], .modifyAckDeadline "s" 10 ["a"]] &&
        (s.heap 1).calls.all Call.succeeded &&
        (s.heap 1).iterator.keepAliveAckIDs.keys.contains "a") = some true := by
      decide +kernel
    obtain ⟨s, hs, hp⟩ := Option.map_eq_some_iff.mp h
    simp only [Bool.and_eq_true, beq_iff_eq, List.contains_iff_mem] at hp
    exact ⟨s, hs, hp.1.1, hp.1.2, hp.2⟩

/-- The acknowledgement comes after the message was merged. -/
def doneAfterMerge : List (HashOrder × AckThreadEvent) :=
  registered ++ [.addDeadlineWatcher 1 "a" 9000000000, .test, .removeFromActive, .check,
    .connect].map (HashOrder.newestFirst, ·) ++ (.newestFirst, .done 1 "a" 1 .ack) ::
  [.swapPending, .finishRound 0 [okAt 0], .endLoop].map (HashOrder.newestFirst, ·)

theorem resolved_not_extended_doneAfterMerge :
    ∃ s, run step (start oneIterator) doneAfterMerge = some s ∧
      ∀ it', "a" ∉ (s.heap it').iterator.inputAckIDs.keys ∧
        "a" ∉ (s.heap it').iterator.keepAliveAckIDs.keys := by
  have h : (run step (start oneIterator) doneAfterMerge).map (fun s => s.heap 1 |>.calls |>.map
      Call.request) = some [.acknowledge "s" ["a"]] := by
    decide +kernel
  obtain ⟨s, hs, hcalls⟩ := Option.map_eq_some_iff.mp h
  obtain ⟨c, hc, hreq⟩ : ∃ c, (s.heap 1).calls = [] ++ c :: [] ∧
      c.request = .acknowledge "s" ["a"] := by
    simpa [List.map_eq_singleton_iff] using hcalls
  have hproper : ProperMessages doneAfterMerge := by
    refine ⟨by decide, ?_⟩
    intro before order it ackID sec action after heq
    have hmem : (order, AckThreadEvent.done it ackID sec action) ∈ doneAfterMerge := by
      rw [heq]
      simp
    obtain ⟨rfl, rfl, rfl, rfl, rfl⟩ : HashOrder.newestFirst = order ∧ 1 = it ∧ "a" = ackID ∧
        1 = sec ∧ .ack = action := by
      simpa [doneAfterMerge, registered, eq_comm] using hmem
    obtain ⟨rfl, -, -⟩ := (List.append_cons_inj_of_notMem (by simp [registered]) (by simp)).mp heq
    decide
  refine ⟨s, hs, fun it' => ?_⟩
  obtain ⟨-, hgone⟩ := resolved_not_extended 1 hs hproper (by decide +kernel) hc
    (by simp [hreq, Request.kind]) (show "a" ∈ c.request.ackIDs by simp [hreq, Request.ackIDs])
  exact ⟨(hgone it').1, (hgone it').2.1⟩

end AckThread

end Pubsuber
