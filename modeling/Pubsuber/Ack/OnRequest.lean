import Pubsuber.Ack.Accounting

/-!
# What an iterator may ask of the server

Every request names the subscription of its iterator and is of one of three shapes, and
an id is only acked or nacked on the user's request.
-/

namespace Pubsuber

open HashContainer StateMachine

/-- Whatever is pending, taken or sent for an action was resolved with that action. -/
def OnRequest (events : List IteratorEvent) (s : IteratorState) : Prop :=
  ∀ action : DoneAction, ∀ ackID, (ackID ∈ idsOf action.kind s.calls ∨
    ackID ∈ s.phase.localIds action ∨ ackID ∈ s.iterator.pendingIds action) →
    action ∈ actionsOf ackID events

theorem OnRequest.step {events : List IteratorEvent} {s t : IteratorState} {order : HashOrder}
    {e : IteratorEvent} (h : OnRequest events s) (hst : s.step (order, e) = some t) :
    OnRequest (events ++ [e]) t := by
  intro action k hk
  have hold : action ∈ actionsOf k events → action ∈ actionsOf k (events ++ [e]) := by
    intro hmem
    rw [actionsOf_append]
    exact List.mem_append_left _ hmem
  rcases IteratorState.step_cases hst with ⟨ackID, nextAck, rfl, rfl⟩ |
    ⟨ackID, sec, action', rfl, rfl⟩ | ⟨rfl, -, rfl⟩ | ⟨rfl, -, rfl⟩ |
    ⟨pseudoNow, results, acks, nacks, rfl, hphase, rfl⟩
  · refine hold (h action k ?_)
    cases action <;> exact hk
  · rw [IteratorState.mem_pendingIds_done] at hk
    by_cases hne : k = ackID
    · subst hne
      rw [if_pos rfl] at hk
      rcases hk with hk | hk | rfl
      · exact hold (h action k (.inl hk))
      · exact hold (h action k (.inr (.inl hk)))
      · rw [actionsOf_append]
        exact List.mem_append_right _ (by simp [actionsOf, doneCalls])
    · rw [if_neg hne] at hk
      exact hold (h action k hk)
  · refine hold (h action k ?_)
    cases action <;> exact hk
  · refine hold (h action k ?_)
    rcases hk with hk | hk | hk
    · exact .inl hk
    · exact .inr (.inr (by cases action <;> exact hk))
    · cases action <;> simp [ModAckIterator.pendingIds, ModAckIterator.swapPending] at hk
  · -- what the round sends is what its swap took
    have hfacts := s.iterator.finishRound_facts order acks nacks pseudoNow results
    refine hold (h action k ?_)
    rcases hk with hk | hk | hk
    · rw [idsOf_append] at hk
      rcases List.mem_append.mp hk with hk | hk
      · exact .inl hk
      · refine .inr (.inl ?_)
        rw [hphase]
        cases action with
        | ack => exact (hfacts.acked k hk).1
        | nack => exact (hfacts.nacked k hk).1
    · by_cases hover : (s.iterator.finishRound order acks nacks pseudoNow results).ending.Over <;>
        cases action <;> simp [hover, Phase.localIds, Phase.acks, Phase.nacks] at hk
    · exact .inr (.inr (by cases action <;> exact hk))

theorem onRequest_of_run {name : String} {ackDist : AckDistribution}
    {events : List (HashOrder × IteratorEvent)} {s : IteratorState}
    (h : run IteratorState.step (.start (.create name ackDist)) events = some s) :
    OnRequest (events.map Prod.snd) s := by
  refine run_history (fun events s => OnRequest (events.map Prod.snd) s) ?_ ?_ h
  · intro events s e t ih hst
    rw [List.map_append, List.map_cons, List.map_nil]
    exact ih.step hst
  · intro action k hk
    cases action <;>
      simp [IteratorState.start, ModAckIterator.create, Phase.localIds, Phase.acks, Phase.nacks,
        ModAckIterator.pendingIds] at hk

inductive Request.Shaped (subscription : String) : Request → Prop
  | acknowledge (ackIDs : List AckID) : Shaped subscription (.acknowledge subscription ackIDs)
  | nack (ackIDs : List AckID) : Shaped subscription (.modifyAckDeadline subscription 0 ackIDs)
  | extension (dl : ℤ) (hmin : kMinAckDeadline ≤ dl) (hmax : dl ≤ kMaxAckDeadline)
    (ackIDs : List AckID) : Shaped subscription (.modifyAckDeadline subscription dl ackIDs)

/-- Every call of a round is of one of the shapes, however the round ends. -/
theorem ModAckIterator.finishRound_shaped (order : HashOrder) (it : ModAckIterator)
    (acks nacks : AckIDSet) (pseudoNow : TimePoint) (results : List CallResult) :
    ∀ c ∈ (it.finishRound order acks nacks pseudoNow results).calls,
      c.request.Shaped it.subscriptionName := by
  have hacks : ∀ keepAlive results,
      ∀ c ∈ ((sendAcks order it.subscriptionName acks).run keepAlive results).calls,
        c.request.Shaped it.subscriptionName := by
    intro keepAlive results c hc
    obtain ⟨l, hl⟩ := sendBatches_requests order _ _ acks keepAlive results c hc
    exact hl ▸ .acknowledge l
  have hnacks : ∀ keepAlive results,
      ∀ c ∈ ((sendNacks order it.subscriptionName nacks).run keepAlive results).calls,
        c.request.Shaped it.subscriptionName := by
    intro keepAlive results c hc
    obtain ⟨l, hl⟩ := sendBatches_requests order _ _ nacks keepAlive results c hc
    exact hl ▸ .nack l
  intro c hc
  have hc : c ∈ ((it.sendPending order acks nacks pseudoNow).run it.keepAliveAckIDs
    results).calls := hc
  rcases it.sendPending_cases order acks nacks pseudoNow it.keepAliveAckIDs results with
    ⟨-, hp⟩ | ⟨-, -, hp⟩ | ⟨-, -, -, hp⟩ | ⟨dl, -, -, hdl, hp⟩
  · rw [hp] at hc
    exact hacks _ _ c hc
  · rw [hp] at hc
    exact (List.mem_append.mp hc).elim (hacks _ _ c) (hnacks _ _ c)
  · rw [hp] at hc
    exact (List.mem_append.mp hc).elim (hacks _ _ c) (hnacks _ _ c)
  · rw [hp] at hc
    rcases List.mem_append.mp hc with hc | hc
    · exact hacks _ _ c hc
    · rcases List.mem_append.mp hc with hc | hc
      · exact hnacks _ _ c hc
      · obtain ⟨-, hrequests, -⟩ := modifyAckDeadlines_spec order it.subscriptionName dl
          it.gracePeriod pseudoNow _ _
        obtain ⟨l, hl⟩ := hrequests c hc
        obtain ⟨hmin, hmax⟩ := ackDeadline_bounds hdl
        exact hl ▸ .extension dl hmin hmax l

theorem shaped_of_run {name : String} {ackDist : AckDistribution}
    {events : List (HashOrder × IteratorEvent)} {s : IteratorState}
    (h : run IteratorState.step (.start (.create name ackDist)) events = some s) :
    ∀ c ∈ s.calls, c.request.Shaped name := by
  refine (run_invariant (fun s : IteratorState => s.iterator.subscriptionName = name ∧
    ∀ c ∈ s.calls, c.request.Shaped name) ?_ h ⟨rfl, ?_⟩).2
  · rintro s ⟨order, e⟩ t ⟨hname, hs⟩ hst
    rcases IteratorState.step_cases hst with ⟨ackID, nextAck, rfl, rfl⟩ |
      ⟨ackID, sec, action, rfl, rfl⟩ | ⟨rfl, -, rfl⟩ | ⟨rfl, -, rfl⟩ |
      ⟨pseudoNow, results, acks, nacks, rfl, -, rfl⟩
    · exact ⟨hname, hs⟩
    · cases action <;> exact ⟨hname, hs⟩
    · exact ⟨hname, hs⟩
    · exact ⟨hname, hs⟩
    · refine ⟨hname, fun c hc => ?_⟩
      rcases List.mem_append.mp hc with hc | hc
      · exact hs c hc
      · exact hname ▸ s.iterator.finishRound_shaped order acks nacks pseudoNow results c hc
  · simp [IteratorState.start]

end Pubsuber
