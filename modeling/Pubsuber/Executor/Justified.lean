import Pubsuber.Ack.OnRequest
import Pubsuber.Executor.Extension

/-!
# Where the requests of the ack thread come from

With any number of subscriptions on one thread, every request goes back to calls that
were made for its own iterator: ids of one subscription never get into a request for
another one.
-/

namespace Pubsuber

open HashContainer StateMachine

theorem mem_actionsOf {ackID : AckID} {action : DoneAction} {events : List IteratorEvent} :
    action ∈ actionsOf ackID events ↔ ∃ sec, .done ackID sec action ∈ events := by
  induction events with
  | nil => simp [actionsOf, doneCalls]
  | cons e events ih =>
    rw [← List.singleton_append, actionsOf_append, List.mem_append, ih]
    simp only [List.singleton_append, List.mem_cons, exists_or]
    refine or_congr_left ?_
    cases e with
    | done k sec action' =>
      by_cases hk : k = ackID
      · simp [actionsOf, doneCalls, hk]
      · simp [actionsOf, doneCalls, hk, Ne.symm hk]
    | _ => simp [actionsOf, doneCalls]

theorem mem_watchedIds {ackID : AckID} {events : List IteratorEvent} :
    ackID ∈ watchedIds events ↔ ∃ nextAck, .addDeadlineWatcher ackID nextAck ∈ events := by
  induction events with
  | nil => simp [watchedIds]
  | cons e events ih =>
    rw [← List.singleton_append, watchedIds_append, List.mem_append, ih]
    simp only [List.singleton_append, List.mem_cons, exists_or]
    refine or_congr_left ?_
    cases e with
    | addDeadlineWatcher k nextAck => simp [watchedIds]
    | _ => simp [watchedIds]

namespace AckThread

/-- A request for an iterator: its ids were resolved so, or watched, through this iterator. -/
inductive Justified (it : ModAckIteratorPtr) (subscription : String)
    (events : List (HashOrder × AckThreadEvent)) : Request → Prop
  | acknowledge {ackIDs : List AckID}
    (hdone : ∀ ackID ∈ ackIDs, ∃ order sec, (order, .done it ackID sec .ack) ∈ events) :
    Justified it subscription events (.acknowledge subscription ackIDs)
  | nack {ackIDs : List AckID}
    (hdone : ∀ ackID ∈ ackIDs, ∃ order sec, (order, .done it ackID sec .nack) ∈ events) :
    Justified it subscription events (.modifyAckDeadline subscription 0 ackIDs)
  | extension {dl : ℤ} {ackIDs : List AckID} (hmin : kMinAckDeadline ≤ dl)
    (hmax : dl ≤ kMaxAckDeadline)
    (hwatched : ∀ ackID ∈ ackIDs,
      ∃ order nextAck, (order, .addDeadlineWatcher it ackID nextAck) ∈ events) :
    Justified it subscription events (.modifyAckDeadline subscription dl ackIDs)

variable {it : ModAckIteratorPtr} {s : AckThread} {events : List (HashOrder × AckThreadEvent)}

theorem exists_of_mem_trace {e : HashOrder × IteratorEvent} (h : e ∈ trace it s events) :
    ∃ e' ∈ events, ∃ u : AckThread, e ∈ u.eventsFor it e' := by
  induction events generalizing s with
  | nil => contradiction
  | cons e' events ih =>
    rw [trace, List.mem_append] at h
    rcases h with h | h
    · exact ⟨e', List.mem_cons_self, s, h⟩
    · cases hst : s.step e' with
      | none =>
        rw [hst] at h
        contradiction
      | some t =>
        rw [hst] at h
        obtain ⟨e'', hmem, hu⟩ := ih h
        exact ⟨e'', List.mem_cons_of_mem _ hmem, hu⟩

theorem mem_of_mem_trace {order : HashOrder} {e : IteratorEvent}
    (h : (order, e) ∈ trace it s events) :
    (∀ ackID sec action, e = .done ackID sec action →
      (order, .done it ackID sec action) ∈ events) ∧
    ∀ ackID nextAck, e = .addDeadlineWatcher ackID nextAck →
      (order, .addDeadlineWatcher it ackID nextAck) ∈ events := by
  obtain ⟨⟨order', e'⟩, hmem, u, hu⟩ := exists_of_mem_trace h
  have hmeans := u.means_eventsFor it order' e'
  generalize u.eventsFor it (order', e') = l at hu hmeans
  cases hmeans with
  | nothing => contradiction
  | merges hwatched n =>
    cases List.eq_of_mem_replicate hu
    simp
  | done | addDeadlineWatcher =>
    cases List.mem_singleton.mp hu
    simpa using hmem
  | swapPending | finishRound =>
    cases List.mem_singleton.mp hu
    simp

/-- Whatever happens on the thread, each request made for an iterator is for its subscription
and carries ids that were resolved in its way, or watched, through that iterator. -/
theorem justified_of_run {object : ModAckIteratorPtr → String × AckDistribution}
    (h : run step (start object) events = some s) {c : Call} (hc : c ∈ (s.heap it).calls) :
    Justified it (object it).1 events c.request := by
  have hview := view_run it h
  have hrequest := onRequest_of_run hview
  have hknown := known_of_run hview
  have hresolved : ∀ action ackID, c.request.kind = action.kind → ackID ∈ c.request.ackIDs →
      ∃ order sec, (order, .done it ackID sec action) ∈ events := by
    intro action ackID hkind hmem
    obtain ⟨sec, hdone⟩ := mem_actionsOf.mp
      (hrequest action ackID (.inl (mem_idsOf.mpr ⟨c, hc, hkind, hmem⟩)))
    obtain ⟨⟨order, e⟩, he, rfl⟩ := List.mem_map.mp hdone
    exact ⟨order, sec, (mem_of_mem_trace he).1 ackID sec action rfl⟩
  have hextended : ∀ ackID, c.request.kind = .extension → ackID ∈ c.request.ackIDs →
      ∃ order nextAck, (order, .addDeadlineWatcher it ackID nextAck) ∈ events := by
    intro ackID hkind hmem
    obtain ⟨nextAck, hwatched⟩ := mem_watchedIds.mp
      (hknown.extended ackID (mem_idsOf.mpr ⟨c, hc, hkind, hmem⟩))
    obtain ⟨⟨order, e⟩, he, rfl⟩ := List.mem_map.mp hwatched
    exact ⟨order, nextAck, (mem_of_mem_trace he).2 ackID nextAck rfl⟩
  have hshaped := shaped_of_run hview c hc
  generalize c.request = request at hshaped hresolved hextended ⊢
  cases hshaped with
  | acknowledge ackIDs => exact .acknowledge fun ackID => hresolved .ack ackID rfl
  | nack ackIDs => exact .nack fun ackID => hresolved .nack ackID rfl
  | extension dl hmin hmax ackIDs =>
    have hdl : dl ≠ 0 := by
      unfold kMinAckDeadline at hmin
      omega
    exact .extension hmin hmax fun ackID => hextended ackID (by simp [Request.kind, hdl])

/-- Two subscriptions, with the same id in both of them, and a round with each. -/
def sameId : List (HashOrder × AckThreadEvent) :=
  [.addIterator "s" 1, .addIterator "t" 2, .addDeadlineWatcher 1 "a" 9000000000,
    .addDeadlineWatcher 2 "a" 0, .test, .removeFromActive, .check, .notify, .lockAgain,
    .done 1 "a" 1 .ack, .connect, .swapPending, .finishRound 0 [okAt 0], .swapPending,
    .finishRound 0 [okAt 0]].map (HashOrder.newestFirst, ·)

/-- The id is extended for the one subscription and acked for the other. -/
theorem justified_of_run_sameId :
    ∃ s, run step (start fun it => (if it = 1 then "s" else "t", emptyDistribution)) sameId =
        some s ∧
      (s.heap 1).calls.map Call.request = [.acknowledge "s" ["a"]] ∧
      (s.heap 2).calls.map Call.request = [.modifyAckDeadline "t" 10 ["a"]] ∧
      ∀ it, ∀ c ∈ (s.heap it).calls,
        Justified it (if it = 1 then "s" else "t") sameId c.request := by
  have heval : (run step (start fun it => (if it = 1 then "s" else "t", emptyDistribution))
      sameId).map (fun s => (s.heap 1).calls.map Call.request == [.acknowledge "s" ["a"]] &&
        (s.heap 2).calls.map Call.request == [.modifyAckDeadline "t" 10 ["a"]]) = some true := by
    decide +kernel
  obtain ⟨s, hs, hcalls⟩ := Option.map_eq_some_iff.mp heval
  simp only [Bool.and_eq_true, beq_iff_eq] at hcalls
  exact ⟨s, hs, hcalls.1, hcalls.2, fun it c hc => justified_of_run hs hc⟩

end AckThread

end Pubsuber
