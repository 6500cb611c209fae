import Pubsuber.Ack.Awaiting
import Pubsuber.Executor.Extension
import Pubsuber.Executor.Steady
import Pubsuber.Library.Amortized

/-!
# From `Done` to the request

`Done` leaves an id in a pending set, where the ack thread finds it at its next swap.
By then the thread may be anywhere in its loop, also behind the iterator in a round or
on its way into a wait. As the id is still watched, there is something to keep alive,
so the thread begins no wait but one that a round has asked for, and that one ends in a
merge. Every other step brings it closer to the swap.
-/

namespace Pubsuber

open HashContainer StateMachine

/-- Nobody stops the thread, removes the subscription or resolves the id otherwise. -/
def AckThreadEvent.spares (subscription : SubscriptionName) (it : ModAckIteratorPtr)
    (ackID : AckID) (action : DoneAction) : AckThreadEvent → Bool
  | .setNeedStop => false
  | .removeIterator name => name ≠ subscription
  | .done it' ackID' _ action' => it' ≠ it || ackID' ≠ ackID || action' = action
  | _ => true

namespace AckThread

variable {s t : AckThread} {order : HashOrder} {e : AckThreadEvent}
  {subscription : SubscriptionName} {it : ModAckIteratorPtr} {ackID : AckID}
  {action : DoneAction}

theorem ne_removeIterator_of_spares
    (h : e.spares subscription it ackID action = true) : e ≠ .removeIterator subscription := by
  rintro rfl
  simp [AckThreadEvent.spares] at h

/-- What the thread is to serve: an id of an active iterator. -/
structure Serves (subscription : SubscriptionName) (it : ModAckIteratorPtr) (ackID : AckID)
    (action : DoneAction) (s : AckThread) : Prop where
  steady : s.Steady
  holds : (s.block.slot subscription).Holds it
  running : s.needStop = false
  place : (s.view it).Awaits ackID action ∨ (s.view it).Takes ackID action

/-- What is asked of the other parties: they spare the id, a round that has it returns, and
counts do not wrap. -/
def Unhindered (subscription : SubscriptionName) (it : ModAckIteratorPtr) (ackID : AckID)
    (action : DoneAction) (s : AckThread) (e : HashOrder × AckThreadEvent) : Prop :=
  e.2.spares subscription it ackID action = true ∧
    ((s.view it).Takes ackID action → ∀ e' ∈ s.eventsFor it e, (s.view it).RoundReturns e') ∧
    s.inputTotal < 2 ^ 32 ∧ s.keepAliveTotal < 2 ^ 64

instance (s : AckThread) (e : HashOrder × AckThreadEvent) :
    Decidable (Unhindered subscription it ackID action s e) :=
  inferInstanceAs (Decidable (_ ∧ _ ∧ _ ∧ _))

def Swaps (it : ModAckIteratorPtr) (s : AckThread) (e : AckThreadEvent) : Prop :=
  e = .swapPending ∧ ∃ rest sleep, s.pc = .processing (it :: rest) sleep

theorem awaits_step (h : (s.view it).Awaits ackID action)
    (hspares : e.spares subscription it ackID action = true) (hst : s.step (order, e) = some t)
    (hswap : ¬ Swaps it s e) : (t.view it).Awaits ackID action := by
  have hview : run IteratorState.step (s.view it) (s.eventsFor it (order, e)) =
      some (t.view it) := view_step hst
  have hmeans := s.means_eventsFor it order e
  generalize s.eventsFor it (order, e) = l at hview hmeans
  cases hmeans with
  | nothing =>
    rw [run_nil, Option.some.injEq] at hview
    exact hview ▸ h
  | merges hwatched n =>
    have hmerges : Along IteratorState.step (fun _ e' => e' = (order, .mergeInput)) (s.view it)
        (List.replicate n (order, .mergeInput)) :=
      along_of_forall _ (fun e' he' _ => List.eq_of_mem_replicate he') _
    refine run_invariant_along (fun u => u.Awaits ackID action) ?_ hview hmerges h
    rintro u e' v hu rfl hv
    exact hu.step hv (by simp) (by simp)
  | done k sec action' =>
    rw [run_cons, Option.bind_eq_some_iff] at hview
    obtain ⟨u, hu, hview⟩ := hview
    cases hview
    refine h.step hu (by simp) ?_
    rintro sec' action'' heq
    cases heq
    simpa [AckThreadEvent.spares] using hspares
  | swapPending hpc => exact absurd ⟨rfl, _, _, hpc⟩ hswap
  | addDeadlineWatcher | finishRound =>
    rw [run_cons, Option.bind_eq_some_iff] at hview
    obtain ⟨u, hu, hview⟩ := hview
    cases hview
    exact h.step hu (by simp) (by simp)

theorem takes_of_swaps (h : (s.view it).Awaits ackID action) (hswap : Swaps it s e)
    (hst : s.step (order, e) = some t) : (t.view it).Takes ackID action := by
  obtain ⟨rfl, rest, sleep, hpc⟩ := hswap
  have hview : run IteratorState.step (s.view it) (s.eventsFor it (order, .swapPending)) =
      some (t.view it) := view_step hst
  rw [show s.eventsFor it (order, .swapPending) = [(order, .swapPending)] by
    simp [eventsFor, hpc], run_cons, Option.bind_eq_some_iff] at hview
  obtain ⟨u, hu, hview⟩ := hview
  cases hview
  exact h.swap hu

theorem takes_step (h : (s.view it).Takes ackID action)
    (hreturns : ∀ e' ∈ s.eventsFor it (order, e), (s.view it).RoundReturns e')
    (hst : s.step (order, e) = some t) :
    (t.view it).Takes ackID action ∨ Carried (t.heap it).calls action.kind ackID := by
  have hview : run IteratorState.step (s.view it) (s.eventsFor it (order, e)) =
      some (t.view it) := view_step hst
  have hmeans := s.means_eventsFor it order e
  generalize s.eventsFor it (order, e) = l at hview hmeans hreturns
  cases hmeans with
  | nothing =>
    rw [run_nil, Option.some.injEq] at hview
    exact .inl (hview ▸ h)
  | merges hwatched n =>
    have hmerges : Along IteratorState.step (fun _ e' => e' = (order, .mergeInput)) (s.view it)
        (List.replicate n (order, .mergeInput)) :=
      along_of_forall _ (fun e' he' _ => List.eq_of_mem_replicate he') _
    refine run_invariant_along
      (fun u => u.Takes ackID action ∨ Carried u.calls action.kind ackID) ?_ hview hmerges (.inl h)
    rintro u e' v (hu | hu) rfl hv
    · exact hu.step hv trivial
    · exact .inr (hu.mono (IteratorState.calls_subset_of_step hv))
  | addDeadlineWatcher | done | swapPending | finishRound =>
    rw [run_cons, Option.bind_eq_some_iff] at hview
    obtain ⟨u, hu, hview⟩ := hview
    cases hview
    exact h.step hu (hreturns _ List.mem_cons_self)

theorem calls_subset_step (hst : s.step (order, e) = some t) (it : ModAckIteratorPtr) :
    (s.heap it).calls ⊆ (t.heap it).calls := by
  have hview : run IteratorState.step (s.view it) (s.eventsFor it (order, e)) =
      some (t.view it) := view_step hst
  exact IteratorState.calls_subset_of_run hview

theorem mem_active_of_holds (h : (s.block.slot subscription).Holds it) : it ∈ s.active :=
  List.mem_map_of_mem (f := Prod.snd) (Unordered.lookup_eq_some.mp h.active)

theorem serves_step (h : Serves subscription it ackID action s)
    (hother : Unhindered subscription it ackID action s (order, e))
    (hst : s.step (order, e) = some t)
    (hunsent : ¬ Carried (t.heap it).calls action.kind ackID) :
    Serves subscription it ackID action t where
  steady := steady_step h.steady hst
  holds := holds_step h.holds (ne_removeIterator_of_spares hother.1) hst
  running := by
    refine running_step_of_ne h.running ?_ hst
    rintro rfl
    exact absurd hother.1 (by simp [AckThreadEvent.spares])
  place := by
    rcases h.place with hplace | hplace
    · by_cases hswap : Swaps it s e
      · exact .inr (takes_of_swaps hplace hswap hst)
      · exact .inl (awaits_step hplace hother.1 hst hswap)
    · exact .inr ((takes_step hplace (hother.2.1 hplace) hst).resolve_right hunsent)

/-- A thread that has an id to serve waits only if a round has asked for it. -/
theorem needSleep_of_waits (h : Serves subscription it ackID action s)
    (hplace : (s.view it).Awaits ackID action) (hinput : s.inputTotal < 2 ^ 32)
    (hkeep : s.keepAliveTotal < 2 ^ 64) {noKeepAlives : Bool} (hpc : s.pc = .checking noKeepAlives)
    (hwaits : s.waits noKeepAlives = true) : s.needSleep = true := by
  by_contra hneed
  have hneed : s.needSleep = false := by simpa using hneed
  have hactive := mem_active_of_holds h.holds
  rcases hplace.watched with hwatched | hwatched
  · have hempty := input_empty_of_waits hwaits hneed hinput it hactive
    rw [view, hempty] at hwatched
    contradiction
  · have hempty := keepAlive_empty_of_waits h.steady hpc hwaits hneed hkeep it hactive
    rw [view, hempty] at hwatched
    contradiction

/-! ## The steps left -/

/-- The most steps the thread takes up to the next swap of an active iterator, if no round
throws. -/
def stepsToSwap (it : ModAckIteratorPtr) (s : AckThread) : ℕ :=
  match s.pc with
  | .stopped => 0
  | .stuck _ => 0
  | .processing rest _ =>
    if it ∈ rest then 1 + 2 * rest.idxOf it else 6 + 2 * rest.length + 2 * s.block.size
  | .inRound _ _ _ rest _ =>
    if it ∈ rest then 2 + 2 * rest.idxOf it else 7 + 2 * rest.length + 2 * s.block.size
  | .merged => 2 * s.block.activeIterators.size
  | .woken _ => if s.needSleep then 1 + 2 * s.block.size else 6 + 2 * s.block.size
  | .waiting => if s.needSleep then 2 + 2 * s.block.size else 7 + 2 * s.block.size
  | .checking _ => 3 + 2 * s.block.size
  | .removing => 4 + 2 * s.block.size
  | .loopHead => 5 + 2 * s.block.size

/-- The most waits it begins on the way. -/
def waitsToSwap (it : ModAckIteratorPtr) (s : AckThread) : ℕ :=
  match s.pc with
  | .processing rest _ => if it ∈ rest then 0 else 1
  | .inRound _ _ _ rest _ => if it ∈ rest then 0 else 1
  | .loopHead => if s.needSleep then 1 else 0
  | .removing => if s.needSleep then 1 else 0
  | .checking _ => if s.needSleep then 1 else 0
  | _ => 0

def waitsBegun (s : AckThread) : HashOrder × AckThreadEvent → ℕ
  | (_, .check) =>
    match s.pc with
    | .checking noKeepAlives => if s.waits noKeepAlives then 1 else 0
    | _ => 0
  | _ => 0

/-- What an event adds to the way: two steps for an iterator that is registered, and the rest
of the loop for a round that throws before the turn of the iterator. -/
def detour (it : ModAckIteratorPtr) (s : AckThread) : HashOrder × AckThreadEvent → ℕ
  | (_, .addIterator _ _) => 2
  | (order, .finishRound pseudoNow results) =>
    match s.pc with
    | .inRound it' acks nacks rest _ =>
      match ((s.heap it').iterator.finishRound order acks nacks pseudoNow results).ending with
      | .threw _ => if it ∈ rest then 4 + 2 * s.block.size else 0
      | _ => 0
    | _ => 0
  | _ => 0

/-- The step is paid for by the way that is left. -/
structure Pays (it : ModAckIteratorPtr) (s : AckThread) (e : HashOrder × AckThreadEvent)
    (t : AckThread) : Prop where
  steps : (if e.2.own then 1 else 0) + t.stepsToSwap it ≤ s.stepsToSwap it + s.detour it e
  waits : s.waitsBegun e + t.waitsToSwap it ≤ s.waitsToSwap it

theorem pays_addIterator (name : SubscriptionName) (it' : ModAckIteratorPtr) :
    Pays it s (order, .addIterator name it')
      { s with block := s.block.addIterator order name it' } := by
  refine ⟨?_, (Nat.zero_add _).le⟩
  have hsize := s.block.size_addIterator_le order name it'
  have hactive : (s.block.addIterator order name it').activeIterators =
    s.block.activeIterators := rfl
  simp only [AckThreadEvent.own, detour, stepsToSwap, hactive, Bool.false_eq_true, if_false]
  cases s.pc with
  | stopped | stuck | merged => simp
  | processing | inRound | waiting | woken =>
    dsimp only
    split_ifs <;> omega
  | loopHead | removing | checking =>
    dsimp only
    omega

theorem pays_merge (hown : e.own = true) (hleft : 1 + 2 * s.block.size ≤ s.stepsToSwap it)
    (hwaits : s.waitsBegun (order, e) = 0) : Pays it s (order, e) (s.merge order) := by
  have hsize := (s.block.size_mergeInputToActive_le order).2
  have hafter : (s.merge order).stepsToSwap it ≤ 2 * s.block.size := by
    simp only [stepsToSwap, pc_merge, block_merge]
    omega
  have hnone : (s.merge order).waitsToSwap it = 0 := by simp [waitsToSwap]
  constructor
  · rw [if_pos hown]
    omega
  · omega

theorem pays_connect (hactive : it ∈ s.active) (hpc : s.pc = .merged) :
    Pays it s (order, .connect)
      { s with
        needSleep := false
        sleep := kSoManyMilliseconds
        pc := .processing s.active kSoManyMilliseconds } := by
  have hidx := List.idxOf_lt_length_of_mem hactive
  rw [length_active] at hidx
  constructor
  · simp only [AckThreadEvent.own, stepsToSwap, detour, hpc, if_pos hactive, if_true]
    omega
  · simp only [waitsToSwap, waitsBegun, hpc, if_pos hactive, le_refl]

theorem pays_swapPending {it' : ModAckIteratorPtr} {rest : List ModAckIteratorPtr} {sleep : ℤ}
    (hpc : s.pc = .processing (it' :: rest) sleep) (hne : it' ≠ it) :
    Pays it s (order, .swapPending)
      { s.update it' fun _ => (s.heap it').iterator.swapPending.1 with
        pc := .inRound it' (s.heap it').iterator.swapPending.2.1
          (s.heap it').iterator.swapPending.2.2 rest sleep } := by
  have hmem : it ∈ it' :: rest ↔ it ∈ rest := by simp [Ne.symm hne]
  constructor
  · simp only [AckThreadEvent.own, stepsToSwap, detour, hpc, update, hmem,
      List.idxOf_cons_ne rest hne, List.length_cons, if_true]
    split_ifs <;> omega
  · simp only [waitsToSwap, waitsBegun, hpc, hmem, zero_add, le_refl]

/-- An exception sends the thread back to the head of its loop, with no sleep before it. -/
theorem pays_throwRound (h : s.Steady) {it' : ModAckIteratorPtr} {acks nacks : AckIDSet}
    {rest : List ModAckIteratorPtr} {sleep : ℤ} {exception : Exception}
    (hpc : s.pc = .inRound it' acks nacks rest sleep) {pseudoNow : TimePoint}
    {results : List CallResult} {r : Round}
    (hr : (s.heap it').iterator.finishRound order acks nacks pseudoNow results = r)
    (hending : r.ending = .threw exception) :
    Pays it s (order, .finishRound pseudoNow results)
      { s with
        heap := Function.update s.heap it' ⟨r.iterator, (s.heap it').calls ++ r.calls⟩
        pc := .loopHead } := by
  have hawake := h.awake (by rw [hpc]; rfl)
  constructor
  · simp only [AckThreadEvent.own, stepsToSwap, detour, hpc, hr, hending, if_true]
    split_ifs <;> omega
  · simp [waitsToSwap, waitsBegun, hpc, hawake]

theorem pays_wait {noKeepAlives : Bool} (hpc : s.pc = .checking noKeepAlives)
    (hwaits : s.waits noKeepAlives = true) (hneed : s.needSleep = true) :
    Pays it s (order, .check) { s with pc := .waiting } := by
  constructor
  · simp only [AckThreadEvent.own, stepsToSwap, detour, hpc, hneed, if_true]
    omega
  · simp [waitsToSwap, waitsBegun, hpc, hneed, hwaits]

/-- Every step but the swap itself is paid for by the way that is left. -/
theorem pays_step (h : Serves subscription it ackID action s)
    (hplace : (s.view it).Awaits ackID action)
    (hother : Unhindered subscription it ackID action s (order, e))
    (hst : s.step (order, e) = some t) (hswap : ¬ Swaps it s e) : Pays it s (order, e) t := by
  cases transition_of_step hst with
  | addDeadlineWatcher | done | removeIterator | setNeedStop | notifyUnheard =>
    exact ⟨(Nat.zero_add _).le, (Nat.zero_add _).le⟩
  | addIterator name it' => exact pays_addIterator name it'
  | stop _ hstop => simp [h.running] at hstop
  | removeFromActive hpc =>
    have hsize := s.block.size_removeFromActive_le
    constructor
    · simp only [AckThreadEvent.own, stepsToSwap, detour, hpc, if_true]
      omega
    · simp [waitsToSwap, waitsBegun, hpc]
  | wait noKeepAlives hpc hwaits =>
    exact pays_wait hpc hwaits
      (needSleep_of_waits h hplace hother.2.2.1 hother.2.2.2 hpc hwaits)
  | merge noKeepAlives hpc hwaits =>
    refine pays_merge rfl ?_ (by simp [waitsBegun, hpc, hwaits])
    simp only [stepsToSwap, hpc]
    omega
  | startOver timeout hpc hover =>
    have hneed : s.needSleep = false := by
      simp only [startsOver, h.running, Bool.or_false, Bool.and_eq_true] at hover
      simpa using hover.1
    constructor
    · simp only [AckThreadEvent.own, stepsToSwap, detour, hpc, hneed, if_true,
        Bool.false_eq_true, if_false]
      omega
    · simp [waitsToSwap, waitsBegun, hpc, hneed]
  | mergeAwake timeout hpc =>
    refine pays_merge rfl ?_ rfl
    simp only [stepsToSwap, hpc]
    split_ifs <;> omega
  | connect hpc => exact pays_connect (mem_active_of_holds h.holds) hpc
  | swapPending it' rest sleep hpc =>
    exact pays_swapPending hpc fun heq => hswap ⟨rfl, rest, sleep, heq ▸ hpc⟩
  | throwRound _ _ it' acks nacks rest sleep exception hpc r hr hending =>
    exact pays_throwRound h.steady hpc hr hending
  | endLoop sleep hpc =>
    constructor
    · simp only [AckThreadEvent.own, stepsToSwap, detour, hpc, if_true, List.not_mem_nil,
        if_false, List.length_nil]
      omega
    · simp only [waitsToSwap, waitsBegun, hpc, List.not_mem_nil, if_false]
      split_ifs <;> omega
  | enter hpc =>
    constructor
    · simp only [AckThreadEvent.own, stepsToSwap, detour, hpc, if_true]
      omega
    · simp [waitsToSwap, waitsBegun, hpc]
  | finishRound _ _ _ _ _ _ _ _ hpc | hangInRound _ _ _ _ _ _ _ hpc | notifyWaiting hpc
  | wake _ hpc =>
    constructor
    · simp only [AckThreadEvent.own, stepsToSwap, detour, hpc, if_true, Bool.false_eq_true,
        if_false]
      split_ifs <;> omega
    · simp [waitsToSwap, waitsBegun, hpc]

theorem pc_of_takes (h : (s.view it).Takes ackID action) :
    ∃ acks nacks rest sleep, s.pc = .inRound it acks nacks rest sleep := by
  have hphase : ackID ∈ (s.pc.phaseOf it).localIds action := h
  cases hpc : s.pc with
  | inRound it' acks nacks rest sleep =>
    by_cases hit : it' = it
    · exact ⟨acks, nacks, rest, sleep, by rw [hit]⟩
    · rw [hpc, AckPc.phaseOf, if_neg hit] at hphase
      cases action <;> simp [Phase.localIds, Phase.acks, Phase.nacks] at hphase
  | stuck it' =>
    rw [hpc, AckPc.phaseOf] at hphase
    split_ifs at hphase <;> cases action <;>
      simp [Phase.localIds, Phase.acks, Phase.nacks] at hphase
  | _ =>
    rw [hpc] at hphase
    cases action <;> simp [AckPc.phaseOf, Phase.localIds, Phase.acks, Phase.nacks] at hphase

theorem own_of_inRound {acks nacks : AckIDSet} {rest : List ModAckIteratorPtr} {sleep : ℤ}
    (hpc : s.pc = .inRound it acks nacks rest sleep) (hst : s.step (order, e) = some t)
    (hown : e.own = true) : ∀ it' acks' nacks' rest' sleep',
      t.pc ≠ .inRound it' acks' nacks' rest' sleep' := by
  cases transition_of_step hst with
  | addDeadlineWatcher | done | addIterator | removeIterator | setNeedStop | notifyWaiting
  | notifyUnheard => contradiction
  | swapPending _ _ _ hprocessing =>
    rw [hpc] at hprocessing
    contradiction
  | _ => simp

/-- The most steps the thread takes until a request has carried the id, but for the one that
makes it. -/
def stepsToRequest (it : ModAckIteratorPtr) (ackID : AckID) (action : DoneAction)
    (s : AckThread) : ℕ :=
  if (s.view it).Takes ackID action then 0 else s.stepsToSwap it

def waitsToRequest (it : ModAckIteratorPtr) (ackID : AckID) (action : DoneAction)
    (s : AckThread) : ℕ :=
  if (s.view it).Takes ackID action then 0 else s.waitsToSwap it

theorem stepsToRequest_le (it : ModAckIteratorPtr) (ackID : AckID) (action : DoneAction)
    (s : AckThread) : s.stepsToRequest it ackID action ≤ s.stepsToSwap it := by
  unfold stepsToRequest
  split_ifs
  · exact Nat.zero_le _
  · exact le_rfl

theorem waitsToRequest_le (it : ModAckIteratorPtr) (ackID : AckID) (action : DoneAction)
    (s : AckThread) : s.waitsToRequest it ackID action ≤ s.waitsToSwap it := by
  unfold waitsToRequest
  split_ifs
  · exact Nat.zero_le _
  · exact le_rfl

theorem not_takes_of_awaits {s : IteratorState} (h : s.Awaits ackID action) :
    ¬ s.Takes ackID action :=
  h.untaken action

theorem stepsToRequest_step (h : Serves subscription it ackID action s)
    (hother : Unhindered subscription it ackID action s (order, e))
    (hst : s.step (order, e) = some t)
    (hunsent : ¬ Carried (t.heap it).calls action.kind ackID) :
    (if e.own then 1 else 0) + t.stepsToRequest it ackID action ≤
        s.stepsToRequest it ackID action + s.detour it (order, e) ∧
      s.waitsBegun (order, e) + t.waitsToRequest it ackID action ≤
        s.waitsToRequest it ackID action := by
  rcases h.place with hplace | hplace
  · by_cases hswap : Swaps it s e
    · have ht := takes_of_swaps hplace hswap hst
      obtain ⟨rfl, rest, sleep, hpc⟩ := hswap
      simp only [stepsToRequest, waitsToRequest, if_pos ht, if_neg (not_takes_of_awaits hplace),
        stepsToSwap, waitsToSwap, waitsBegun, hpc, List.idxOf_cons_self]
      simp [AckThreadEvent.own, detour]
    · have ht := awaits_step hplace hother.1 hst hswap
      simp only [stepsToRequest, waitsToRequest, if_neg (not_takes_of_awaits ht),
        if_neg (not_takes_of_awaits hplace)]
      have hpays := pays_step h hplace hother hst hswap
      exact ⟨hpays.steps, hpays.waits⟩
  · have ht := (takes_step hplace (hother.2.1 hplace) hst).resolve_right hunsent
    obtain ⟨acks, nacks, rest, sleep, hpc⟩ := pc_of_takes hplace
    obtain ⟨acks', nacks', rest', sleep', hpc'⟩ := pc_of_takes ht
    have hown : e.own = false := by
      by_contra hown
      exact own_of_inRound hpc hst (by simpa using hown) _ _ _ _ _ hpc'
    have hwaits : s.waitsBegun (order, e) = 0 := by
      cases e <;> simp [waitsBegun, hpc]
    rw [stepsToRequest, waitsToRequest, if_pos ht, if_pos ht, hown, hwaits]
    simp

theorem stepsToSwap_le (hfits : s.RoundFits) (h : (s.block.slot subscription).Holds it) :
    s.stepsToSwap it ≤ 6 + 4 * s.block.size := by
  have hactive : s.block.activeIterators.size ≤ s.block.size := Nat.le_add_left _ _
  have hpos : 0 < s.block.activeIterators.size := by
    rw [← length_active]
    exact List.length_pos_of_mem (mem_active_of_holds h)
  unfold RoundFits at hfits
  unfold stepsToSwap
  cases hpc : s.pc with
  | processing rest sleep | inRound _ _ _ rest sleep =>
    have hidx : rest.idxOf it ≤ rest.length := List.idxOf_le_length
    rw [hpc] at hfits
    dsimp only at hfits ⊢
    split_ifs <;> omega
  | waiting | woken =>
    dsimp only
    split_ifs <;> omega
  | stopped | stuck | loopHead | removing | checking | merged =>
    dsimp only
    omega

theorem waitsToSwap_le (it : ModAckIteratorPtr) (s : AckThread) : s.waitsToSwap it ≤ 1 := by
  unfold waitsToSwap
  cases s.pc with
  | processing | inRound | loopHead | removing | checking =>
    dsimp only
    split_ifs <;> omega
  | stopped | stuck | waiting | woken | merged => exact Nat.zero_le 1

theorem serves_of_done {object : ModAckIteratorPtr → String × AckDistribution}
    {events : List (HashOrder × AckThreadEvent)} (h : run step (start object) events = some s)
    (hholds : (s.block.slot subscription).Holds it) (hrunning : s.needStop = false)
    (hwatched : ackID ∈ watchedIds ((trace it (start object) events).map Prod.snd))
    (hfirst : ackID ∉ doneIds ((trace it (start object) events).map Prod.snd))
    (order : HashOrder) (sec : ℤ) (action : DoneAction) :
    Serves subscription it ackID action (s.update it (·.done order ackID sec action)) where
  steady := steady_update (steady_of_run h) it (by cases action <;> rfl)
  holds := hholds
  running := hrunning
  place := by
    left
    rw [view_update, if_pos rfl]
    exact IteratorState.awaits_of_done (view_run it h) hwatched hfirst order sec

/-- Wherever the thread is when a watched id is resolved for the first time, within so many of
its own steps and one wait a successful request of its kind carries the id; until then the
thread can go on, unless a remote call never returns. -/
theorem carried_of_done {object : ModAckIteratorPtr → String × AckDistribution}
    {events : List (HashOrder × AckThreadEvent)} (h : run step (start object) events = some s)
    (hactive : s.block.activeIterators.lookup subscription = some it)
    (hkept : subscription ∉ s.block.removedIterators) (hrunning : s.needStop = false)
    (hwatched : ackID ∈ watchedIds ((trace it (start object) events).map Prod.snd))
    (hfirst : ackID ∉ doneIds ((trace it (start object) events).map Prod.snd))
    {sec : ℤ} {done : AckThread} (hdone : s.step (order, .done it ackID sec action) = some done)
    {more : List (HashOrder × AckThreadEvent)} (hmore : run step done more = some t)
    (hother : Along step (Unhindered subscription it ackID action) done more) :
    Carried (t.heap it).calls action.kind ackID ∨
      (more.countP (·.2.own) < 7 + 4 * s.block.size + total step (detour it) done more ∧
        total step waitsBegun done more ≤ 1 ∧
        ((∃ e : AckThreadEvent, e.own = true ∧ (t.step (.newestFirst, e)).isSome) ∨
          ∃ it', t.pc = .stuck it')) := by
  rw [or_iff_not_imp_left]
  intro hunsent
  have hholds : (s.block.slot subscription).Holds it :=
    ⟨hactive, by simpa [ThreadDataBlock.slot]⟩
  have hserves := serves_of_done h hholds hrunning hwatched hfirst order sec action
  have hsteps := stepsToSwap_le (steady_of_run h).fits hholds
  have hwaits := waitsToSwap_le it s
  cases hdone
  have hallowed := along_of_final
    (Q := fun u => Carried (u.heap it).calls action.kind ackID)
    (fun _ _ _ hQ _ hst => hQ.mono (calls_subset_step hst it)) hmore hother hunsent
  have hkeep : ∀ (s : AckThread) (i : HashOrder × AckThreadEvent) (t : AckThread),
      Serves subscription it ackID action s →
      (Unhindered subscription it ackID action s i ∧ ∀ u, step s i = some u →
        ¬ Carried (u.heap it).calls action.kind ackID) →
      step s i = some t → Serves subscription it ackID action t :=
    fun _ _ _ hs hi hst => serves_step hs hi.1 hst (hi.2 _ hst)
  refine ⟨?_, ?_, ?_⟩
  · have hrun := total_le_of_potential (Serves subscription it ackID action)
      (stepsToRequest it ackID action) (fun _ e => if e.2.own then 1 else 0) (detour it) hkeep
      (fun _ _ _ hs hi hst => (stepsToRequest_step hs hi.1 hst (hi.2 _ hst)).1)
      hmore hallowed hserves
    rw [total_eq_countP hmore fun e => e.2.own] at hrun
    have hleft := stepsToRequest_le it ackID action (s.update it (·.done order ackID sec action))
    have hsame : (s.update it (·.done order ackID sec action)).stepsToSwap it =
      s.stepsToSwap it := rfl
    omega
  · have hrun := total_le_of_potential (Serves subscription it ackID action)
      (waitsToRequest it ackID action) waitsBegun (fun _ _ => 0) hkeep
      (fun _ _ _ hs hi hst => (stepsToRequest_step hs hi.1 hst (hi.2 _ hst)).2)
      hmore hallowed hserves
    rw [total_eq_sum hmore (fun _ => 0), List.map_const', List.sum_replicate, smul_zero,
      add_zero] at hrun
    have hleft := waitsToRequest_le it ackID action (s.update it (·.done order ackID sec action))
    have hsame : (s.update it (·.done order ackID sec action)).waitsToSwap it =
      s.waitsToSwap it := rfl
    omega
  · have ht := run_invariant_along (Serves subscription it ackID action) hkeep hmore hallowed
      hserves
    exact exists_own_step_of_running ht.steady ht.running

/-- A message arrives, and the thread is in its round with the iterator. -/
def inItsRound : List (HashOrder × AckThreadEvent) :=
  registered ++ [.addDeadlineWatcher 1 "a" 9000000000, .notify, .test, .removeFromActive, .check,
    .connect, .swapPending].map (HashOrder.newestFirst, ·)

/-- The round asks for a sleep, which ends with its timeout. -/
def toTheNextRound : List (HashOrder × AckThreadEvent) :=
  [.notify, .finishRound 0 [], .endLoop, .test, .removeFromActive, .check, .wake true, .lockAgain,
    .connect, .swapPending].map (HashOrder.newestFirst, ·)

theorem carried_of_done_inItsRound :
    ∃ s done t, run step (start oneIterator) inItsRound = some s ∧
      s.step (.newestFirst, .done 1 "a" 1 .ack) = some done ∧
      run step done toTheNextRound = some t ∧ ¬ Carried (t.heap 1).calls .ack "a" ∧
      toTheNextRound.countP (·.2.own) = 9 ∧
      toTheNextRound.countP (·.2.own) <
        7 + 4 * s.block.size + total step (detour 1) done toTheNextRound ∧
      total step waitsBegun done toTheNextRound ≤ 1 := by
  have heval : ((run step (start oneIterator) inItsRound).bind fun s =>
      (s.step (.newestFirst, .done 1 "a" 1 .ack)).bind fun done =>
        (run step done toTheNextRound).map fun t =>
          s.block.activeIterators.lookup "s" == some 1 && s.block.removedIterators == [] &&
            !s.needStop && decide (¬ Carried (t.heap 1).calls .ack "a") &&
            decide (Along step (Unhindered "s" 1 "a" .ack) done toTheNextRound)) =
      some true := by
    decide +kernel
  obtain ⟨s, hs, hrest⟩ := Option.bind_eq_some_iff.mp heval
  obtain ⟨done, hdone, hrest⟩ := Option.bind_eq_some_iff.mp hrest
  obtain ⟨t, ht, hchecks⟩ := Option.map_eq_some_iff.mp hrest
  simp only [Bool.and_eq_true, beq_iff_eq, Bool.not_eq_true', decide_eq_true_eq] at hchecks
  obtain ⟨⟨⟨⟨hactive, hremoved⟩, hrunning⟩, hunsent⟩, hother⟩ := hchecks
  have hbounds := (carried_of_done hs hactive (by simp [hremoved]) hrunning (by decide +kernel)
    (by decide +kernel) hdone ht hother).resolve_left hunsent
  exact ⟨s, done, t, hs, hdone, ht, hunsent, rfl, hbounds.1, hbounds.2.1⟩

end AckThread

end Pubsuber
