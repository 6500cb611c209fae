import Pubsuber.Ack.Tracking

/-!
# What becomes of a resolved id

An id that a round has sent for acknowledgement or with a deadline of 0s is gone
from the keep-alive map, so only the input can bring it back. It does when the
swap takes an id that is still in the input.
-/

namespace Pubsuber

open HashContainer StateMachine

def sentIds (calls : List Call) : List AckID := idsOf .ack calls ++ idsOf .nack calls

theorem sentIds_append (calls calls' : List Call) {ackID : AckID} :
    ackID ∈ sentIds (calls ++ calls') ↔ ackID ∈ sentIds calls ∨ ackID ∈ sentIds calls' := by
  simp only [sentIds, idsOf_append, List.mem_append]
  tauto

theorem mem_sentIds {calls : List Call} {ackID : AckID} :
    ackID ∈ sentIds calls ↔
      ∃ c ∈ calls, c.request.kind ≠ .extension ∧ ackID ∈ c.request.ackIDs := by
  simp only [sentIds, List.mem_append, mem_idsOf]
  constructor
  · rintro (⟨c, hc, hk, h⟩ | ⟨c, hc, hk, h⟩)
    · exact ⟨c, hc, by simp [hk], h⟩
    · exact ⟨c, hc, by simp [hk], h⟩
  · rintro ⟨c, hc, hk, h⟩
    cases hkind : c.request.kind with
    | ack => exact .inl ⟨c, hc, hkind, h⟩
    | nack => exact .inr ⟨c, hc, hkind, h⟩
    | extension => exact absurd hkind hk

/-- The later call does not extend an id that the earlier one resolves. -/
def NotExtendedAfter (c c' : Call) : Prop :=
  c.request.kind ≠ .extension → c'.request.kind = .extension →
    c.request.ackIDs.Disjoint c'.request.ackIDs

/-- Ids are registered once, and resolved only after that. -/
structure ProperUse (events : List IteratorEvent) : Prop where
  once : (watchedIds events).Nodup
  watched : ∀ before ackID sec action after,
    events = before ++ .done ackID sec action :: after → ackID ∈ watchedIds before

theorem ProperUse.of_append {events events' : List IteratorEvent}
    (h : ProperUse (events ++ events')) : ProperUse events where
  once := by
    have := h.once
    rw [watchedIds_append] at this
    exact (List.nodup_append.mp this).1
  watched before ackID sec action after heq :=
    h.watched before ackID sec action (after ++ events') (by simp [heq])

theorem ProperUse.append {events events' : List IteratorEvent} (h : ProperUse events)
    (honce : (watchedIds (events ++ events')).Nodup)
    (hdone : ∀ before ackID sec action after,
      events' = before ++ .done ackID sec action :: after →
      ackID ∈ watchedIds (events ++ before)) : ProperUse (events ++ events') where
  once := honce
  watched before ackID sec action after heq := by
    rcases List.append_eq_append_iff.mp heq with ⟨mid, rfl, hmid⟩ | ⟨mid, hmid, hafter⟩
    · exact hdone mid ackID sec action after hmid
    · cases mid with
      | nil =>
        have := hdone [] ackID sec action after hafter.symm
        simpa [hmid] using this
      | cons e mid =>
        obtain ⟨rfl, -⟩ := List.cons_eq_cons.mp hafter
        exact h.watched before ackID sec action mid hmid

theorem mem_doneIds {events : List IteratorEvent} {ackID : AckID} :
    ackID ∈ doneIds events ↔ ∃ sec action, .done ackID sec action ∈ events := by
  simp only [doneIds, doneCalls, List.mem_map, List.mem_filterMap]
  constructor
  · rintro ⟨⟨k, action⟩, ⟨e, he, heq⟩, rfl⟩
    cases e with
    | done k' sec action' =>
      obtain ⟨rfl, rfl⟩ : k' = k ∧ action' = action := by simpa using heq
      exact ⟨sec, action', he⟩
    | _ => simp at heq
  · rintro ⟨sec, action, he⟩
    exact ⟨(ackID, action), ⟨_, he, rfl⟩, rfl⟩

theorem ProperUse.watched_of_done {events : List IteratorEvent} (h : ProperUse events)
    {ackID : AckID} (hd : ackID ∈ doneIds events) : ackID ∈ watchedIds events := by
  obtain ⟨sec, action, hmem⟩ := mem_doneIds.mp hd
  obtain ⟨before, after, heq⟩ := List.append_of_mem hmem
  have := h.watched before ackID sec action after heq
  rw [heq, watchedIds_append]
  exact List.mem_append_left _ this

/-- A swap that takes only ids which the last `MergeInput` has seen. -/
def IteratorState.SwapsMerged (s : IteratorState) : HashOrder × IteratorEvent → Prop
  | (_, .swapPending) => ∀ ackID ∈ s.iterator.pendingAckIDs.keys ++
      s.iterator.pendingNackIDs.keys, ackID ∉ s.iterator.inputAckIDs.keys
  | _ => True

def IteratorState.localIds (s : IteratorState) : List AckID := s.phase.acks ++ s.phase.nacks

/-- Where an id that left the pending sets may still be found. -/
structure Resolution (events : List IteratorEvent) (s : IteratorState) : Prop where
  sent_done : ∀ ackID ∈ sentIds s.calls, ackID ∈ doneIds events
  local_input : ∀ ackID ∈ s.localIds, ackID ∉ s.iterator.inputAckIDs.keys
  sent_input : ∀ ackID ∈ sentIds s.calls, ackID ∉ s.iterator.inputAckIDs.keys
  sent_keepAlive : ∀ ackID ∈ sentIds s.calls, ackID ∉ s.iterator.keepAliveAckIDs.keys
  ordered : s.calls.Pairwise NotExtendedAfter

namespace Resolution

variable {events : List IteratorEvent} {s : IteratorState} {order : HashOrder}

theorem local_done (ht : Tracking events s) {ackID : AckID} (h : ackID ∈ s.localIds) :
    ackID ∈ doneIds events := by
  rcases List.mem_append.mp h with h | h
  · exact ht.acks ackID h
  · exact ht.nacks ackID h

theorem addDeadlineWatcher (h : Resolution events s) (ht : Tracking events s) {ackID : AckID}
    {nextAck : TimePoint} (hp : ProperUse (events ++ [.addDeadlineWatcher ackID nextAck])) :
    Resolution (events ++ [.addDeadlineWatcher ackID nextAck])
      { s with iterator := s.iterator.addDeadlineWatcher order ackID nextAck } := by
  have hdone : doneIds (events ++ [.addDeadlineWatcher ackID nextAck]) = doneIds events :=
    doneIds_concat rfl
  have hfresh : ∀ k ∈ doneIds events, k ≠ ackID := by
    rintro k hk rfl
    have honce := hp.once
    rw [watchedIds_append] at honce
    exact (List.disjoint_of_nodup_append honce) (hp.of_append.watched_of_done hk)
      (by simp [watchedIds])
  have hinput : ∀ k ∈ doneIds events, k ∉ s.iterator.inputAckIDs.keys →
      k ∉ (s.iterator.addDeadlineWatcher order ackID nextAck).inputAckIDs.keys := by
    intro k hk hn hmem
    simp only [ModAckIterator.addDeadlineWatcher, Unordered.mem_keys_insertOrAssign] at hmem
    exact hmem.elim (hfresh k hk) hn
  constructor
  · rw [hdone]
    exact h.sent_done
  · intro k hk
    exact hinput k (local_done ht hk) (h.local_input k hk)
  · intro k hk
    exact hinput k (h.sent_done k hk) (h.sent_input k hk)
  · exact h.sent_keepAlive
  · exact h.ordered

theorem done (h : Resolution events s) (ackID : AckID) (sec : ℤ) (action : DoneAction) :
    Resolution (events ++ [.done ackID sec action])
      { s with iterator := s.iterator.done order ackID sec action } := by
  have hsame : (s.iterator.done order ackID sec action).inputAckIDs = s.iterator.inputAckIDs ∧
      (s.iterator.done order ackID sec action).keepAliveAckIDs = s.iterator.keepAliveAckIDs := by
    cases action <;> exact ⟨rfl, rfl⟩
  constructor
  · intro k hk
    rw [doneIds_append]
    exact List.mem_append_left _ (h.sent_done k hk)
  · rw [hsame.1]
    exact h.local_input
  · rw [hsame.1]
    exact h.sent_input
  · rw [hsame.2]
    exact h.sent_keepAlive
  · exact h.ordered

theorem mergeInput (h : Resolution events s) :
    Resolution (events ++ [.mergeInput])
      { s with iterator := s.iterator.mergeInput order } := by
  have hempty : (s.iterator.mergeInput order).inputAckIDs.keys = [] := rfl
  constructor
  · intro k hk
    rw [doneIds_append]
    exact List.mem_append_left _ (h.sent_done k hk)
  · simp [hempty]
  · simp [hempty]
  · intro k hk hmem
    simp only [ModAckIterator.mergeInput, Unordered.mem_keys_merge] at hmem
    exact hmem.elim (h.sent_keepAlive k hk) (h.sent_input k hk)
  · exact h.ordered

theorem swapPending (h : Resolution events s) (hswap : s.SwapsMerged (order, .swapPending)) :
    Resolution (events ++ [.swapPending])
      { s with
        iterator := s.iterator.swapPending.1
        phase := .swapped s.iterator.pendingAckIDs s.iterator.pendingNackIDs } := by
  constructor
  · intro k hk
    rw [doneIds_append]
    exact List.mem_append_left _ (h.sent_done k hk)
  · intro k hk
    exact hswap k hk
  · exact h.sent_input
  · exact h.sent_keepAlive
  · exact h.ordered

theorem finishRound (h : Resolution events s) (ht : Tracking events s) {acks nacks : AckIDSet}
    (hphase : s.phase = .swapped acks nacks) (pseudoNow : TimePoint)
    (results : List CallResult) :
    let r := s.iterator.finishRound order acks nacks pseudoNow results
    Resolution (events ++ [.finishRound pseudoNow results])
      ⟨r.iterator, if r.ending.Over then .idle else .stuck, s.calls ++ r.calls⟩ := by
  intro r
  have hfacts := s.iterator.finishRound_facts order acks nacks pseudoNow results
  have hlocal : ∀ k ∈ sentIds r.calls, k ∈ s.localIds ∧ k ∉ r.iterator.keepAliveAckIDs.keys := by
    intro k hk
    simp only [IteratorState.localIds, hphase, Phase.acks, Phase.nacks, List.mem_append]
    rcases List.mem_append.mp hk with hk | hk
    · exact ⟨.inl (hfacts.acked k hk).1, (hfacts.acked k hk).2⟩
    · exact ⟨.inr (hfacts.nacked k hk).1, (hfacts.nacked k hk).2⟩
  have hkeep : ∀ k ∈ sentIds (s.calls ++ r.calls), k ∉ r.iterator.keepAliveAckIDs.keys := by
    intro k hk
    rcases (sentIds_append _ _).mp hk with hk | hk
    · exact fun hmem => h.sent_keepAlive k hk (hfacts.keys_subset k hmem)
    · exact (hlocal k hk).2
  -- any resolving call of the run so far against any extension of this round
  have hext : ∀ c ∈ s.calls ++ r.calls, ∀ c' ∈ r.calls, NotExtendedAfter c c' := by
    intro c hc c' hc' hk hk' ackID hmem hmem'
    refine hkeep ackID (mem_sentIds.mpr ⟨c, hc, hk, hmem⟩) ?_
    exact hfacts.extended ackID (mem_idsOf.mpr ⟨c', hc', hk', hmem'⟩)
  constructor
  · intro k hk
    rw [doneIds_append]
    rcases (sentIds_append _ _).mp hk with hk | hk
    · exact List.mem_append_left _ (h.sent_done k hk)
    · exact List.mem_append_left _ (local_done ht (hlocal k hk).1)
  · intro k hk
    by_cases hover : r.ending.Over <;>
      simp [IteratorState.localIds, hover, Phase.acks, Phase.nacks] at hk
  · intro k hk
    rcases (sentIds_append _ _).mp hk with hk | hk
    · exact h.sent_input k hk
    · exact h.local_input k (hlocal k hk).1
  · exact hkeep
  · refine List.pairwise_append.mpr ⟨h.ordered, ?_, ?_⟩
    · exact List.pairwise_of_forall_mem_list fun c hc c' hc' =>
        hext c (List.mem_append_right _ hc) c' hc'
    · intro c hc c' hc'
      exact hext c (List.mem_append_left _ hc) c' hc'

end Resolution

/-- In a run whose swaps take only merged ids, resolved ids are not watched any more
and not extended any more. -/
theorem resolution_of_run {name : String} {ackDist : AckDistribution}
    {events : List (HashOrder × IteratorEvent)} {s : IteratorState}
    (h : run IteratorState.step (.start (.create name ackDist)) events = some s)
    (halong : Along IteratorState.step IteratorState.SwapsMerged
      (.start (.create name ackDist)) events)
    (hproper : ProperUse (events.map Prod.snd)) : Resolution (events.map Prod.snd) s := by
  refine (run_history_along (fun events s => ProperUse (events.map Prod.snd) →
    Tracking (events.map Prod.snd) s ∧ Resolution (events.map Prod.snd) s) ?_ ?_ h halong
    hproper).2
  · rintro events s ⟨order, e⟩ t ih hallowed hst hp
    rw [List.map_append, List.map_cons, List.map_nil] at hp ⊢
    obtain ⟨ht, hr⟩ := ih hp.of_append
    refine ⟨ht.step hst, ?_⟩
    rcases IteratorState.step_cases hst with ⟨ackID, nextAck, rfl, rfl⟩ |
      ⟨ackID, sec, action, rfl, rfl⟩ | ⟨rfl, -, rfl⟩ | ⟨rfl, -, rfl⟩ |
      ⟨pseudoNow, results, acks, nacks, rfl, hphase, rfl⟩
    · exact hr.addDeadlineWatcher ht hp
    · exact hr.done ackID sec action
    · exact hr.mergeInput
    · exact hr.swapPending hallowed
    · exact hr.finishRound ht hphase pseudoNow results
  · intro _
    constructor <;> constructor <;> simp [IteratorState.start, ModAckIterator.create, Phase.acks,
      Phase.nacks, IteratorState.localIds, watchedIds, sentIds]

/-- Only registered ids are ever watched or extended. -/
structure Known (events : List IteratorEvent) (s : IteratorState) : Prop where
  input : ∀ ackID ∈ s.iterator.inputAckIDs.keys, ackID ∈ watchedIds events
  keepAlive : ∀ ackID ∈ s.iterator.keepAliveAckIDs.keys, ackID ∈ watchedIds events
  extended : ∀ ackID ∈ idsOf .extension s.calls, ackID ∈ watchedIds events

theorem Known.step {events : List IteratorEvent} {s t : IteratorState} {order : HashOrder}
    {e : IteratorEvent} (h : Known events s) (hst : s.step (order, e) = some t) :
    Known (events ++ [e]) t := by
  have hmono : ∀ {k}, k ∈ watchedIds events → k ∈ watchedIds (events ++ [e]) := by
    intro k hk
    rw [watchedIds_append]
    exact List.mem_append_left _ hk
  rcases IteratorState.step_cases hst with ⟨ackID, nextAck, rfl, rfl⟩ |
    ⟨ackID, sec, action, rfl, rfl⟩ | ⟨rfl, -, rfl⟩ | ⟨rfl, -, rfl⟩ |
    ⟨pseudoNow, results, acks, nacks, rfl, -, rfl⟩
  · refine ⟨?_, fun k hk => hmono (h.keepAlive k hk), fun k hk => hmono (h.extended k hk)⟩
    intro k hk
    simp only [ModAckIterator.addDeadlineWatcher, Unordered.mem_keys_insertOrAssign] at hk
    rcases hk with rfl | hk
    · rw [watchedIds_append]
      exact List.mem_append_right _ (by simp [watchedIds])
    · exact hmono (h.input k hk)
  · cases action
    all_goals exact ⟨fun k hk => hmono (h.input k hk), fun k hk => hmono (h.keepAlive k hk),
      fun k hk => hmono (h.extended k hk)⟩
  · refine ⟨by simp [ModAckIterator.mergeInput], ?_, fun k hk => hmono (h.extended k hk)⟩
    intro k hk
    simp only [ModAckIterator.mergeInput, Unordered.mem_keys_merge] at hk
    exact hmono (hk.elim (h.keepAlive k) (h.input k))
  · exact ⟨fun k hk => hmono (h.input k hk), fun k hk => hmono (h.keepAlive k hk),
      fun k hk => hmono (h.extended k hk)⟩
  · have hfacts := s.iterator.finishRound_facts order acks nacks pseudoNow results
    refine ⟨fun k hk => hmono (h.input k hk),
      fun k hk => hmono (h.keepAlive k (hfacts.keys_subset k hk)), ?_⟩
    intro k hk
    rw [idsOf_append] at hk
    rcases List.mem_append.mp hk with hk | hk
    · exact hmono (h.extended k hk)
    · exact hmono (h.keepAlive k (hfacts.keys_subset k (hfacts.extended k hk)))

theorem known_of_run {name : String} {ackDist : AckDistribution}
    {events : List (HashOrder × IteratorEvent)} {s : IteratorState}
    (h : run IteratorState.step (.start (.create name ackDist)) events = some s) :
    Known (events.map Prod.snd) s := by
  refine run_history (fun events s => Known (events.map Prod.snd) s) ?_ ?_ h
  · intro events s e t ih hst
    rw [List.map_append, List.map_cons, List.map_nil]
    exact ih.step hst
  · constructor <;> simp [IteratorState.start, ModAckIterator.create]

end Pubsuber
