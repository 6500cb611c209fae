import Pubsuber.Ack.Tracking

/-!
# An id that is resolved once is sent once

A resolved id waits in the pending set of its kind, is taken by a swap and is
sent in a request of its kind. As long as the rounds return, its copies in these
three places add up to the number of its resolutions, if that is at most one.
-/

namespace Pubsuber

open HashContainer StateMachine

/-- What was done with an id, in order. -/
def actionsOf (ackID : AckID) (events : List IteratorEvent) : List DoneAction :=
  (doneCalls events).filterMap fun call => if call.1 = ackID then some call.2 else none

theorem actionsOf_append (ackID : AckID) (events events' : List IteratorEvent) :
    actionsOf ackID (events ++ events') = actionsOf ackID events ++ actionsOf ackID events' := by
  simp [actionsOf, doneCalls_append]

theorem actionsOf_eq_nil {ackID : AckID} {events : List IteratorEvent} :
    actionsOf ackID events = [] ↔ ackID ∉ doneIds events := by
  simp only [actionsOf, doneIds, List.filterMap_eq_nil_iff, List.mem_map, not_exists, not_and]
  refine forall₂_congr fun call _ => ?_
  split_ifs with h <;> simp [h]

def ModAckIterator.pendingIds (it : ModAckIterator) : DoneAction → List AckID
  | .ack => it.pendingAckIDs.keys
  | .nack => it.pendingNackIDs.keys

def Phase.localIds (phase : Phase) : DoneAction → List AckID
  | .ack => phase.acks
  | .nack => phase.nacks

namespace IteratorState

/-- How often an id is found among what is pending, taken or sent for an action. -/
def copies (s : IteratorState) (action : DoneAction) (ackID : AckID) : ℕ :=
  (idsOf action.kind s.calls).count ackID + (s.phase.localIds action).count ackID +
    (s.iterator.pendingIds action).count ackID

def RoundReturns (s : IteratorState) : HashOrder × IteratorEvent → Prop
  | (order, .finishRound pseudoNow results) =>
    match s.phase with
    | .swapped acks nacks =>
      (s.iterator.finishRound order acks nacks pseudoNow results).ending.Returns
    | _ => True
  | _ => True

instance : (s : IteratorState) → (e : HashOrder × IteratorEvent) → Decidable (s.RoundReturns e)
  | ⟨_, .swapped _ _, _⟩, (_, .finishRound _ _) => inferInstanceAs (Decidable (Ending.Returns _))
  | ⟨_, .idle, _⟩, (_, .finishRound _ _) => .isTrue trivial
  | ⟨_, .stuck, _⟩, (_, .finishRound _ _) => .isTrue trivial
  | _, (_, .addDeadlineWatcher _ _) => .isTrue trivial
  | _, (_, .done _ _ _) => .isTrue trivial
  | _, (_, .mergeInput) => .isTrue trivial
  | _, (_, .swapPending) => .isTrue trivial

end IteratorState

theorem ModAckIterator.finishRound_returned (order : HashOrder) (it : ModAckIterator)
    (acks nacks : AckIDSet) (pseudoNow : TimePoint) (results : List CallResult) {sleep : ℤ}
    (h : (it.finishRound order acks nacks pseudoNow results).ending = .returned sleep) :
    (idsOf .ack (it.finishRound order acks nacks pseudoNow results).calls).Perm acks.keys ∧
      (idsOf .nack (it.finishRound order acks nacks pseudoNow results).calls).Perm
        nacks.keys := by
  obtain ⟨dl, hdl, ha, hn, -, hcalls, -⟩ := it.finishRound_loops order acks nacks pseudoNow
    results h
  obtain ⟨haperm, -⟩ := sendBatches_returned order _ (fun _ => rfl) acks _ _ ha
  obtain ⟨hnperm, -⟩ := sendBatches_returned order _ (fun _ => rfl) nacks _ _ hn
  obtain ⟨hacks, hnacks, -⟩ := idsOf_of_kinds (sendAcks_kind order _ _ _ _)
    (sendNacks_kind order _ _ _ _)
    (modifyAckDeadlines_kind order _ (ackDeadline_ne_zero hdl) _ _ _ _)
  rw [hcalls]
  exact ⟨by rw [hacks]; exact haperm, by rw [hnacks]; exact hnperm⟩

theorem ModAckIterator.finishRound_succeeded (order : HashOrder) (it : ModAckIterator)
    (acks nacks : AckIDSet) (pseudoNow : TimePoint) (results : List CallResult) {sleep : ℤ}
    (h : (it.finishRound order acks nacks pseudoNow results).ending = .returned sleep) :
    ∀ c ∈ (it.finishRound order acks nacks pseudoNow results).calls, c.succeeded = true := by
  obtain ⟨dl, hdl, ha, hn, hm, hcalls, -⟩ := it.finishRound_loops order acks nacks pseudoNow
    results h
  obtain ⟨-, haok⟩ := sendBatches_returned order _ (fun _ => rfl) acks _ _ ha
  obtain ⟨-, hnok⟩ := sendBatches_returned order _ (fun _ => rfl) nacks _ _ hn
  obtain ⟨-, -, -, -, hreturned⟩ := modifyAckDeadlines_spec order it.subscriptionName dl
    it.gracePeriod pseudoNow (eraseKeys (eraseKeys it.keepAliveAckIDs acks) nacks)
    ((sendNacks order it.subscriptionName nacks).run
      (eraseKeys (eraseKeys it.keepAliveAckIDs acks) nacks)
      ((sendAcks order it.subscriptionName acks).run (eraseKeys it.keepAliveAckIDs acks)
        results).results).results
  obtain ⟨hmok, -⟩ := hreturned sleep hm
  intro c hc
  rw [hcalls] at hc
  rcases List.mem_append.mp hc with hc | hc
  · exact haok c hc
  · rcases List.mem_append.mp hc with hc | hc
    · exact hnok c hc
    · exact hmok c hc

theorem IteratorState.calls_subset_of_step {s t : IteratorState} {e : HashOrder × IteratorEvent}
    (hst : s.step e = some t) : s.calls ⊆ t.calls := by
  obtain ⟨order, e⟩ := e
  rcases IteratorState.step_cases hst with ⟨ackID, nextAck, rfl, rfl⟩ |
    ⟨ackID, sec, action, rfl, rfl⟩ | ⟨rfl, -, rfl⟩ | ⟨rfl, -, rfl⟩ |
    ⟨pseudoNow, results, acks, nacks, rfl, -, rfl⟩
  · exact List.Subset.refl _
  · exact List.Subset.refl _
  · exact List.Subset.refl _
  · exact List.Subset.refl _
  · exact List.subset_append_left _ _

theorem IteratorState.calls_subset_of_run {s t : IteratorState}
    {events : List (HashOrder × IteratorEvent)} (h : run IteratorState.step s events = some t) :
    s.calls ⊆ t.calls :=
  run_invariant (fun u => s.calls ⊆ u.calls)
    (fun _ _ _ hs hst => List.Subset.trans hs (IteratorState.calls_subset_of_step hst)) h
    (List.Subset.refl _)

namespace IteratorState

variable {s t : IteratorState} {order : HashOrder} {e : IteratorEvent} {ackID : AckID}

theorem pendingIds_nodup (it : ModAckIterator) (action : DoneAction) :
    (it.pendingIds action).Nodup := by
  cases action
  · exact it.pendingAckIDs.keys_nodup
  · exact it.pendingNackIDs.keys_nodup

theorem mem_pendingIds_done (it : ModAckIterator) (k : AckID) (sec : ℤ)
    (action action' : DoneAction) :
    ackID ∈ (it.done order k sec action).pendingIds action' ↔
      if ackID = k then action' = action else ackID ∈ it.pendingIds action' := by
  by_cases h : ackID = k
  · cases action <;> cases action' <;> simp [ModAckIterator.done, ModAckIterator.pendingIds, h]
  · cases action <;> cases action' <;> simp [ModAckIterator.done, ModAckIterator.pendingIds, h]

theorem pendingIds_subset (hst : s.step (order, e) = some t) (hdone : ackID ∉ doneIds [e])
    (action : DoneAction) (hmem : ackID ∈ t.iterator.pendingIds action) :
    ackID ∈ s.iterator.pendingIds action ∧ e ≠ .swapPending := by
  rcases step_cases hst with ⟨k, nextAck, rfl, rfl⟩ | ⟨k, sec, action', rfl, rfl⟩ |
    ⟨rfl, -, rfl⟩ | ⟨rfl, -, rfl⟩ | ⟨pseudoNow, results, acks, nacks, rfl, -, rfl⟩
  · cases action <;> exact ⟨hmem, by simp⟩
  · have hne : ackID ≠ k := by simpa [doneIds, doneCalls] using hdone
    rw [mem_pendingIds_done, if_neg hne] at hmem
    exact ⟨hmem, by simp⟩
  · cases action <;> exact ⟨hmem, by simp⟩
  · cases action <;> simp [ModAckIterator.pendingIds, ModAckIterator.swapPending] at hmem
  · cases action <;> exact ⟨hmem, by simp⟩

theorem not_pending_of_swapped {events : List (HashOrder × IteratorEvent)}
    (h : run step s events = some t) (hdone : ackID ∉ doneIds (events.map Prod.snd))
    (hswap : .swapPending ∈ events.map Prod.snd) (action : DoneAction) :
    ackID ∉ t.iterator.pendingIds action := by
  refine run_history (fun events (t : IteratorState) => ackID ∉ doneIds (events.map Prod.snd) →
    .swapPending ∈ events.map Prod.snd → ackID ∉ t.iterator.pendingIds action) ?_ ?_ h hdone hswap
  · rintro events s ⟨order, e⟩ t ih hst hdone hswap hmem
    rw [List.map_append, List.map_cons, List.map_nil, doneIds_append, List.mem_append,
      not_or] at hdone
    obtain ⟨hpending, hne⟩ := pendingIds_subset hst hdone.2 action hmem
    refine ih hdone.1 ?_ hpending
    simpa [hne.symm] using hswap
  · intro _ hswap
    simp at hswap

/-- A step moves the copies of an id that it does not resolve. -/
theorem copies_step (hst : s.step (order, e) = some t) (hr : s.RoundReturns (order, e))
    (hdone : ackID ∉ doneIds [e]) (action : DoneAction) :
    t.copies action ackID = s.copies action ackID := by
  rcases step_cases hst with ⟨k, nextAck, rfl, rfl⟩ | ⟨k, sec, action', rfl, rfl⟩ |
    ⟨rfl, -, rfl⟩ | ⟨rfl, hphase, rfl⟩ | ⟨pseudoNow, results, acks, nacks, rfl, hphase, rfl⟩
  · cases action <;> rfl
  · have hne : ackID ≠ k := by simpa [doneIds, doneCalls] using hdone
    unfold copies
    rw [(pendingIds_nodup _ _).count, (pendingIds_nodup _ _).count]
    simp only [mem_pendingIds_done, if_neg hne]
  · cases action <;> rfl
  · cases action <;>
      simp [copies, hphase, Phase.localIds, Phase.acks, Phase.nacks, ModAckIterator.pendingIds,
        ModAckIterator.swapPending]
  · simp only [RoundReturns, hphase] at hr
    obtain ⟨sleep, hsleep⟩ := hr
    obtain ⟨hacks, hnacks⟩ := s.iterator.finishRound_returned order acks nacks pseudoNow results
      hsleep
    have hpending :
        (s.iterator.finishRound order acks nacks pseudoNow results).iterator.pendingIds =
          s.iterator.pendingIds := by
      funext action
      cases action <;> rfl
    have hover : (Ending.returned sleep).Over := trivial
    cases action with
    | ack =>
      simp only [copies, hsleep, hover, if_true, hphase, hpending, DoneAction.kind, idsOf_append,
        List.count_append, hacks.count_eq, Phase.localIds, Phase.acks, List.count_nil]
      omega
    | nack =>
      simp only [copies, hsleep, hover, if_true, hphase, hpending, DoneAction.kind, idsOf_append,
        List.count_append, hnacks.count_eq, Phase.localIds, Phase.nacks, List.count_nil]
      omega

theorem copies_done (hnone : ∀ action, s.copies action ackID = 0) (sec : ℤ)
    (action action' : DoneAction) :
    copies { s with iterator := s.iterator.done order ackID sec action } action' ackID =
      if action' = action then 1 else 0 := by
  have hzero := hnone action'
  unfold copies at hzero ⊢
  rw [(pendingIds_nodup _ _).count]
  simp only [mem_pendingIds_done, if_true]
  omega

theorem sent_done_of_run {name : String} {ackDist : AckDistribution}
    {events : List (HashOrder × IteratorEvent)}
    (h : run step (start (.create name ackDist)) events = some s) (action : DoneAction)
    (hsent : ackID ∈ idsOf action.kind s.calls) : ackID ∈ doneIds (events.map Prod.snd) := by
  refine (run_history (fun events (s : IteratorState) => Tracking (events.map Prod.snd) s ∧
    ∀ action : DoneAction, ∀ k ∈ idsOf action.kind s.calls, k ∈ doneIds (events.map Prod.snd))
    ?_ ?_ h).2 action ackID hsent
  · rintro events s ⟨order, e⟩ t ⟨ht, ih⟩ hst
    rw [List.map_append, List.map_cons, List.map_nil]
    refine ⟨ht.step hst, fun action k hk => ?_⟩
    rw [doneIds_append]
    refine List.mem_append_left _ ?_
    rcases step_cases hst with ⟨_, nextAck, rfl, rfl⟩ | ⟨_, sec, _, rfl, rfl⟩ | ⟨rfl, -, rfl⟩ |
      ⟨rfl, -, rfl⟩ | ⟨pseudoNow, results, acks, nacks, rfl, hphase, rfl⟩
    · exact ih action k hk
    · exact ih action k hk
    · exact ih action k hk
    · exact ih action k hk
    · -- what the round sends is what its swap took
      have hfacts := s.iterator.finishRound_facts order acks nacks pseudoNow results
      rw [idsOf_append] at hk
      rcases List.mem_append.mp hk with hk | hk
      · exact ih action k hk
      · cases action with
        | ack => exact ht.acks k (by rw [hphase]; exact (hfacts.acked k hk).1)
        | nack => exact ht.nacks k (by rw [hphase]; exact (hfacts.nacked k hk).1)
  · refine ⟨?_, by simp [start]⟩
    constructor <;> simp [start, ModAckIterator.create, Phase.acks, Phase.nacks, watchedIds]

theorem copies_eq_zero {name : String} {ackDist : AckDistribution}
    {events : List (HashOrder × IteratorEvent)}
    (h : run step (start (.create name ackDist)) events = some s)
    (hdone : ackID ∉ doneIds (events.map Prod.snd)) (action : DoneAction) :
    s.copies action ackID = 0 := by
  have ht := tracking_of_run h
  have hsent : ackID ∉ idsOf action.kind s.calls :=
    fun hmem => hdone (sent_done_of_run h action hmem)
  have hlocal : ackID ∉ s.phase.localIds action := by
    intro hmem
    cases action with
    | ack => exact hdone (ht.acks ackID hmem)
    | nack => exact hdone (ht.nacks ackID hmem)
  have hpending : ackID ∉ s.iterator.pendingIds action := by
    intro hmem
    cases action with
    | ack => exact hdone (ht.pendingAck ackID hmem)
    | nack => exact hdone (ht.pendingNack ackID hmem)
  simp [copies, List.count_eq_zero_of_not_mem, hsent, hlocal, hpending]

/-- In a run whose rounds return, an id that is resolved at most once has as many
copies as resolutions. -/
theorem copies_of_run {events : List (HashOrder × IteratorEvent)}
    (h : run step s events = some t) (hreturns : Along step RoundReturns s events)
    (hnone : ∀ action, s.copies action ackID = 0)
    (honce : (actionsOf ackID (events.map Prod.snd)).length ≤ 1) (action : DoneAction) :
    t.copies action ackID = (actionsOf ackID (events.map Prod.snd)).count action := by
  refine run_history_along (fun events (t : IteratorState) =>
    (actionsOf ackID (events.map Prod.snd)).length ≤ 1 →
    ∀ action, t.copies action ackID = (actionsOf ackID (events.map Prod.snd)).count action)
    ?_ ?_ h hreturns honce action
  · rintro events t ⟨order, e⟩ u ih hr hst honce action
    rw [List.map_append, List.map_cons, List.map_nil, actionsOf_append] at honce ⊢
    by_cases hdone : ackID ∈ doneIds [e]
    · obtain ⟨sec, action', rfl⟩ : ∃ sec action, e = .done ackID sec action := by
        cases e with
        | done k sec action' =>
          obtain rfl : ackID = k := by simpa [doneIds, doneCalls] using hdone
          exact ⟨sec, action', rfl⟩
        | _ => simp [doneIds, doneCalls] at hdone
      have hone : actionsOf ackID [.done ackID sec action'] = [action'] := by
        simp [actionsOf, doneCalls]
      have hnil : actionsOf ackID (events.map Prod.snd) = [] := by
        rw [hone, List.length_append] at honce
        exact List.eq_nil_of_length_eq_zero (by simpa using honce)
      rw [hnil, List.nil_append, hone]
      obtain rfl : { t with iterator := t.iterator.done order ackID sec action' } = u :=
        Option.some.inj hst
      rw [copies_done (fun action => by rw [ih (by simp [hnil]) action, hnil]; rfl)]
      cases action <;> cases action' <;> rfl
    · rw [copies_step hst hr hdone, actionsOf_eq_nil.mpr hdone, List.append_nil]
      refine ih ?_ action
      rw [List.length_append] at honce
      omega
  · intro _ action
    exact hnone action

end IteratorState

end Pubsuber
