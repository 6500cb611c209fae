import Pubsuber.Ack.Accounting
import Pubsuber.Ack.Atomicity

/-!
# The way of an id through the rounds

A resolved id waits in a pending set for the next swap, whose round takes it along and,
if it returns, has sent it. Until the swap the id stays watched.
-/

namespace Pubsuber

open HashContainer StateMachine

namespace IteratorState

variable {s t : IteratorState} {order : HashOrder} {e : IteratorEvent} {ackID : AckID}
  {action : DoneAction}

/-- The id is resolved and watched, and no round has got hold of it. -/
structure Awaits (s : IteratorState) (ackID : AckID) (action : DoneAction) : Prop where
  pending : ackID ∈ s.iterator.pendingIds action
  watched : ackID ∈ s.iterator.inputAckIDs.keys ∨ ackID ∈ s.iterator.keepAliveAckIDs.keys
  untaken : ∀ action', ackID ∉ s.phase.localIds action'

def Takes (s : IteratorState) (ackID : AckID) (action : DoneAction) : Prop :=
  ackID ∈ s.phase.localIds action

instance (s : IteratorState) (ackID : AckID) (action : DoneAction) :
    Decidable (s.Takes ackID action) :=
  inferInstanceAs (Decidable (_ ∈ _))

/-- Nothing but the swap gets hold of an id that is not resolved otherwise. -/
theorem Awaits.step (h : s.Awaits ackID action) (hst : s.step (order, e) = some t)
    (hswap : e ≠ .swapPending) (hdone : ∀ sec action', e = .done ackID sec action' →
      action' = action) : t.Awaits ackID action := by
  rcases step_cases hst with ⟨k, nextAck, rfl, rfl⟩ | ⟨k, sec, action', rfl, rfl⟩ |
    ⟨rfl, -, rfl⟩ | ⟨rfl, -, rfl⟩ | ⟨pseudoNow, results, acks, nacks, rfl, hphase, rfl⟩
  · refine ⟨?_, ?_, h.untaken⟩
    · cases action <;> exact h.pending
    · simp only [ModAckIterator.addDeadlineWatcher, Unordered.mem_keys_insertOrAssign]
      exact h.watched.imp_left Or.inr
  · refine ⟨?_, ?_, h.untaken⟩
    · rw [mem_pendingIds_done]
      split_ifs with hk
      · subst hk
        exact (hdone sec action' rfl).symm
      · exact h.pending
    · cases action' <;> exact h.watched
  · refine ⟨?_, .inr ?_, h.untaken⟩
    · cases action <;> exact h.pending
    · rw [ModAckIterator.mergeInput, Unordered.mem_keys_merge]
      exact h.watched.symm
  · contradiction
  · have hfacts := s.iterator.finishRound_facts order acks nacks pseudoNow results
    have huntaken := h.untaken
    rw [hphase] at huntaken
    have hacks : ackID ∉ acks.keys := huntaken .ack
    have hnacks : ackID ∉ nacks.keys := huntaken .nack
    refine ⟨?_, ?_, fun action' => ?_⟩
    · cases action <;> exact h.pending
    · exact h.watched.imp_right fun hkept => hfacts.kept ackID hkept hacks hnacks
    · dsimp only
      split_ifs <;> cases action' <;> simp [Phase.localIds, Phase.acks, Phase.nacks]

theorem Awaits.swap (h : s.Awaits ackID action)
    (hst : s.step (order, .swapPending) = some t) : t.Takes ackID action := by
  rcases step_cases hst with ⟨_, _, he, -⟩ | ⟨_, _, _, he, -⟩ | ⟨he, -⟩ | ⟨-, -, rfl⟩ |
    ⟨_, _, _, _, he, -⟩
  · contradiction
  · contradiction
  · contradiction
  · cases action <;> exact h.pending
  · contradiction

theorem Takes.step (h : s.Takes ackID action) (hst : s.step (order, e) = some t)
    (hreturns : s.RoundReturns (order, e)) :
    t.Takes ackID action ∨ Carried t.calls action.kind ackID := by
  rcases step_cases hst with ⟨k, nextAck, rfl, rfl⟩ | ⟨k, sec, action', rfl, rfl⟩ |
    ⟨rfl, hphase, rfl⟩ | ⟨rfl, hphase, rfl⟩ |
    ⟨pseudoNow, results, acks, nacks, rfl, hphase, rfl⟩
  · exact .inl h
  · exact .inl h
  · cases action <;> simp [Takes, hphase, Phase.localIds, Phase.acks, Phase.nacks] at h
  · cases action <;> simp [Takes, hphase, Phase.localIds, Phase.acks, Phase.nacks] at h
  · simp only [RoundReturns, hphase] at hreturns
    obtain ⟨sleep, hsleep⟩ := hreturns
    obtain ⟨hacks, hnacks⟩ := s.iterator.finishRound_returned order acks nacks pseudoNow results
      hsleep
    have hmem : ackID ∈ idsOf action.kind
        (s.iterator.finishRound order acks nacks pseudoNow results).calls := by
      rw [Takes, hphase] at h
      cases action with
      | ack => exact hacks.mem_iff.mpr h
      | nack => exact hnacks.mem_iff.mpr h
    obtain ⟨c, hc, hkind, hid⟩ := mem_idsOf.mp hmem
    have hok := s.iterator.finishRound_succeeded order acks nacks pseudoNow results hsleep c hc
    exact .inr ⟨c, List.mem_append_right _ hc, hok, hkind, hid⟩

theorem awaits_of_done {name : String} {ackDist : AckDistribution}
    {events : List (HashOrder × IteratorEvent)} {s : IteratorState}
    (h : run IteratorState.step (.start (.create name ackDist)) events = some s)
    (hwatched : ackID ∈ watchedIds (events.map Prod.snd))
    (hdone : ackID ∉ doneIds (events.map Prod.snd)) (order : HashOrder) (sec : ℤ) :
    Awaits { s with iterator := s.iterator.done order ackID sec action } ackID action := by
  have htracking := tracking_of_run h
  refine ⟨by rw [mem_pendingIds_done, if_pos rfl], ?_, fun action' hmem => hdone ?_⟩
  · cases action <;> exact htracking.watched ackID hwatched hdone
  · cases action' with
    | ack => exact htracking.acks ackID hmem
    | nack => exact htracking.nacks ackID hmem

end IteratorState

end Pubsuber
