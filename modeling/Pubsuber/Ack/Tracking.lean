import Pubsuber.Ack.History

/-!
# Watched ids stay under deadline tracking

Only ids that are being resolved leave the two watch maps, so an id registered
and not yet resolved is in one of them at every point of a round, whatever
became of its calls.
-/

namespace Pubsuber

open HashContainer StateMachine

theorem watchedIds_append (events events' : List IteratorEvent) :
    watchedIds (events ++ events') = watchedIds events ++ watchedIds events' :=
  List.filterMap_append

theorem doneCalls_append (events events' : List IteratorEvent) :
    doneCalls (events ++ events') = doneCalls events ++ doneCalls events' :=
  List.filterMap_append

theorem doneIds_append (events events' : List IteratorEvent) :
    doneIds (events ++ events') = doneIds events ++ doneIds events' := by
  simp [doneIds, doneCalls_append]

theorem doneIds_concat {events : List IteratorEvent} {e : IteratorEvent} (h : doneIds [e] = []) :
    doneIds (events ++ [e]) = doneIds events := by
  rw [doneIds_append, h, List.append_nil]

theorem watchedIds_concat {events : List IteratorEvent} {e : IteratorEvent}
    (h : watchedIds [e] = []) : watchedIds (events ++ [e]) = watchedIds events := by
  rw [watchedIds_append, h, List.append_nil]

/-- What the containers of an iterator owe to the ids it was given. -/
structure Tracking (events : List IteratorEvent) (s : IteratorState) : Prop where
  pendingAck : ∀ ackID ∈ s.iterator.pendingAckIDs.keys, ackID ∈ doneIds events
  pendingNack : ∀ ackID ∈ s.iterator.pendingNackIDs.keys, ackID ∈ doneIds events
  acks : ∀ ackID ∈ s.phase.acks, ackID ∈ doneIds events
  nacks : ∀ ackID ∈ s.phase.nacks, ackID ∈ doneIds events
  watched : ∀ ackID ∈ watchedIds events, ackID ∉ doneIds events →
    ackID ∈ s.iterator.inputAckIDs.keys ∨ ackID ∈ s.iterator.keepAliveAckIDs.keys

namespace Tracking

variable {events : List IteratorEvent} {s : IteratorState} (order : HashOrder)

theorem addDeadlineWatcher (h : Tracking events s) (ackID : AckID) (nextAck : TimePoint) :
    Tracking (events ++ [.addDeadlineWatcher ackID nextAck])
      { s with iterator := s.iterator.addDeadlineWatcher order ackID nextAck } := by
  have hdone : doneIds (events ++ [.addDeadlineWatcher ackID nextAck]) = doneIds events :=
    doneIds_concat rfl
  refine ⟨?_, ?_, ?_, ?_, ?_⟩ <;> rw [hdone]
  · exact h.pendingAck
  · exact h.pendingNack
  · exact h.acks
  · exact h.nacks
  · intro k hk hd
    rw [watchedIds_append, List.mem_append] at hk
    simp only [ModAckIterator.addDeadlineWatcher, Unordered.mem_keys_insertOrAssign]
    rcases hk with hk | hk
    · exact (h.watched k hk hd).imp_left Or.inr
    · exact .inl (.inl (by simpa [watchedIds] using hk))

theorem done (h : Tracking events s) (ackID : AckID) (sec : ℤ) (action : DoneAction) :
    Tracking (events ++ [.done ackID sec action])
      { s with iterator := s.iterator.done order ackID sec action } := by
  have hdone : ∀ k, k ∈ doneIds (events ++ [.done ackID sec action]) ↔
      k ∈ doneIds events ∨ k = ackID := by
    intro k
    rw [doneIds_append, List.mem_append]
    simp [doneIds, doneCalls]
  have hwatched : watchedIds (events ++ [.done ackID sec action]) = watchedIds events :=
    watchedIds_concat rfl
  -- whatever is pending now was pending before or is `ackID`
  have hpending : ∀ k, (k ∈ (s.iterator.done order ackID sec action).pendingAckIDs.keys ∨
      k ∈ (s.iterator.done order ackID sec action).pendingNackIDs.keys) →
      k ∈ doneIds events ∨ k = ackID := by
    intro k
    cases action with
    | ack =>
      simp only [ModAckIterator.done, Unordered.mem_keys_emplace, Unordered.mem_keys_erase]
      rintro ((rfl | hk) | ⟨hk, -⟩)
      · exact .inr rfl
      · exact .inl (h.pendingAck k hk)
      · exact .inl (h.pendingNack k hk)
    | nack =>
      simp only [ModAckIterator.done, Unordered.mem_keys_emplace, Unordered.mem_keys_erase]
      rintro (⟨hk, -⟩ | rfl | hk)
      · exact .inl (h.pendingAck k hk)
      · exact .inr rfl
      · exact .inl (h.pendingNack k hk)
  refine ⟨fun k hk => (hdone k).mpr (hpending k (.inl hk)),
    fun k hk => (hdone k).mpr (hpending k (.inr hk)),
    fun k hk => (hdone k).mpr (.inl (h.acks k hk)),
    fun k hk => (hdone k).mpr (.inl (h.nacks k hk)), ?_⟩
  intro k hk hd
  rw [hwatched] at hk
  rw [hdone] at hd
  have := h.watched k hk fun hd' => hd (.inl hd')
  cases action <;> exact this

theorem mergeInput (h : Tracking events s) :
    Tracking (events ++ [.mergeInput]) { s with iterator := s.iterator.mergeInput order } := by
  have hdone : doneIds (events ++ [.mergeInput]) = doneIds events :=
    doneIds_concat rfl
  refine ⟨?_, ?_, ?_, ?_, ?_⟩ <;> rw [hdone]
  · exact h.pendingAck
  · exact h.pendingNack
  · exact h.acks
  · exact h.nacks
  · intro k hk hd
    rw [watchedIds_concat rfl] at hk
    refine .inr ?_
    simp only [ModAckIterator.mergeInput, Unordered.mem_keys_merge]
    exact (h.watched k hk hd).symm

theorem swapPending (h : Tracking events s) :
    Tracking (events ++ [.swapPending])
      { s with
        iterator := s.iterator.swapPending.1
        phase := .swapped s.iterator.pendingAckIDs s.iterator.pendingNackIDs } := by
  have hdone : doneIds (events ++ [.swapPending]) = doneIds events :=
    doneIds_concat rfl
  refine ⟨?_, ?_, ?_, ?_, ?_⟩ <;> rw [hdone]
  · intro k hk
    simp [ModAckIterator.swapPending] at hk
  · intro k hk
    simp [ModAckIterator.swapPending] at hk
  · exact h.pendingAck
  · exact h.pendingNack
  · intro k hk hd
    rw [watchedIds_concat rfl] at hk
    exact h.watched k hk hd

theorem finishRound (h : Tracking events s) {acks nacks : AckIDSet}
    (hphase : s.phase = .swapped acks nacks) (pseudoNow : TimePoint)
    (results : List CallResult) :
    let r := s.iterator.finishRound order acks nacks pseudoNow results
    Tracking (events ++ [.finishRound pseudoNow results])
      ⟨r.iterator, if r.ending.Over then .idle else .stuck, s.calls ++ r.calls⟩ := by
  intro r
  have hdone : doneIds (events ++ [.finishRound pseudoNow results]) = doneIds events :=
    doneIds_concat rfl
  have hfacts := s.iterator.finishRound_facts order acks nacks pseudoNow results
  refine ⟨?_, ?_, ?_, ?_, ?_⟩ <;> rw [hdone]
  · exact h.pendingAck
  · exact h.pendingNack
  · intro k hk
    split_ifs at hk <;> simp [Phase.acks] at hk
  · intro k hk
    split_ifs at hk <;> simp [Phase.nacks] at hk
  · intro k hk hd
    rw [watchedIds_concat rfl] at hk
    refine (h.watched k hk hd).imp_right fun hkeep => hfacts.kept k hkeep ?_ ?_
    · intro ha
      exact hd (h.acks k (by rw [hphase]; exact ha))
    · intro hn
      exact hd (h.nacks k (by rw [hphase]; exact hn))

theorem step {order : HashOrder} {e : IteratorEvent} {t : IteratorState}
    (h : Tracking events s) (hst : s.step (order, e) = some t) : Tracking (events ++ [e]) t := by
  rcases IteratorState.step_cases hst with ⟨ackID, nextAck, rfl, rfl⟩ |
    ⟨ackID, sec, action, rfl, rfl⟩ | ⟨rfl, -, rfl⟩ | ⟨rfl, -, rfl⟩ |
    ⟨pseudoNow, results, acks, nacks, rfl, hphase, rfl⟩
  · exact h.addDeadlineWatcher order ackID nextAck
  · exact h.done order ackID sec action
  · exact h.mergeInput order
  · exact h.swapPending
  · exact h.finishRound order hphase pseudoNow results

end Tracking

theorem tracking_of_run {name : String} {ackDist : AckDistribution}
    {events : List (HashOrder × IteratorEvent)} {s : IteratorState}
    (h : run IteratorState.step (.start (.create name ackDist)) events = some s) :
    Tracking (events.map Prod.snd) s := by
  refine run_history (fun events s => Tracking (events.map Prod.snd) s) ?_ ?_ h
  · intro events s e t ih hst
    rw [List.map_append, List.map_cons, List.map_nil]
    exact ih.step hst
  · constructor <;> simp [IteratorState.start, ModAckIterator.create, Phase.acks, Phase.nacks,
      watchedIds]

/-- An id that was registered and not resolved is watched, and it is kept alive as
soon as the input is merged. -/
theorem watched_of_unresolved {name : String} {ackDist : AckDistribution}
    {events : List (HashOrder × IteratorEvent)} {s : IteratorState}
    (h : run IteratorState.step (.start (.create name ackDist)) events = some s) {ackID : AckID}
    (hwatched : ackID ∈ watchedIds (events.map Prod.snd))
    (hdone : ackID ∉ doneIds (events.map Prod.snd)) :
    (ackID ∈ s.iterator.inputAckIDs.keys ∨ ackID ∈ s.iterator.keepAliveAckIDs.keys) ∧
      ∀ (more : List (HashOrder × IteratorEvent)) (order : HashOrder) (t : IteratorState),
        ackID ∉ doneIds (more.map Prod.snd) →
        run IteratorState.step s (more ++ [(order, .mergeInput)]) = some t →
        ackID ∈ t.iterator.keepAliveAckIDs.keys := by
  refine ⟨(tracking_of_run h).watched ackID hwatched hdone, ?_⟩
  intro more order t hmore ht
  rw [run_concat] at ht
  cases hu : run IteratorState.step s more with
  | none => simp [hu] at ht
  | some u =>
    rw [hu] at ht
    have hall : run IteratorState.step (.start (.create name ackDist)) (events ++ more) =
        some u := by
      rw [run_append, h]
      exact hu
    have hkept := (tracking_of_run hall).watched ackID
      (by rw [List.map_append, watchedIds_append]; exact List.mem_append_left _ hwatched)
      (by rw [List.map_append, doneIds_append]; simp [hdone, hmore])
    have ht : u.step (order, .mergeInput) = some t := ht
    rcases IteratorState.step_cases ht with ⟨_, _, he, -⟩ | ⟨_, _, _, he, -⟩ | ⟨-, -, rfl⟩ |
      ⟨he, -⟩ | ⟨_, _, _, _, he, -⟩
    · contradiction
    · contradiction
    · simp only [ModAckIterator.mergeInput, Unordered.mem_keys_merge]
      exact hkept.symm
    · contradiction
    · contradiction

/-- The nack of "n" fails; "k" was registered meanwhile. -/
def failedRound : List (HashOrder × IteratorEvent) :=
  [(.newestFirst, .addDeadlineWatcher "n" 0), (.newestFirst, .mergeInput),
    (.newestFirst, .done "n" 1 .nack), (.newestFirst, .swapPending),
    (.newestFirst, .addDeadlineWatcher "k" 0),
    (.newestFirst, .finishRound 0 [.error ⟨"retries exhausted", 14⟩])]

theorem watched_of_unresolved_failedRound :
    ∃ s, run IteratorState.step (.start (.create "s" emptyDistribution)) failedRound = some s ∧
      (("k" ∈ s.iterator.inputAckIDs.keys ∨ "k" ∈ s.iterator.keepAliveAckIDs.keys) ∧
        ∀ (more : List (HashOrder × IteratorEvent)) (order : HashOrder) (t : IteratorState),
          "k" ∉ doneIds (more.map Prod.snd) →
          run IteratorState.step s (more ++ [(order, .mergeInput)]) = some t →
          "k" ∈ t.iterator.keepAliveAckIDs.keys) := by
  refine ⟨_, rfl, ?_⟩
  have hrun : run IteratorState.step (.start (.create "s" emptyDistribution)) failedRound =
    some _ := rfl
  exact watched_of_unresolved hrun (by decide) (by decide)

end Pubsuber
