import Pubsuber.Executor.AckThread
import Pubsuber.Executor.PullThread

/-!
# What a step can be

Each step of a thread is one of its transitions: the place it starts from, the branch it
takes and the state it leaves. What the invariants of the threads need to know about their
steps is here.
-/

namespace Pubsuber

open HashContainer

variable {κ : Type}

/-! ## The pull thread -/

theorem pullRound_over (active : IteratorContainer (SubscriptionPullIterator κ))
    (results : SubscriptionName → PullResult) : (pullRound active results).ending.Over := by
  unfold pullRound
  induction active.toList with
  | nil => trivial
  | cons pair pairs ih =>
    unfold forEachActive
    cases hpull : pair.2.pull (results pair.1) with
    | returned value => exact ih
    | threw e => trivial
    | terminated =>
      unfold SubscriptionPullIterator.pull at hpull
      split at hpull
      · split at hpull <;> contradiction
      · contradiction
    | calling =>
      unfold SubscriptionPullIterator.pull at hpull
      split at hpull
      · split at hpull <;> contradiction
      · contradiction

namespace PullThread

/-- A round that throws is over, so the thread is never left inside one. -/
inductive Transition (order : HashOrder) (s : PullThread κ) :
    PullThreadEvent κ → PullThread κ → Prop
  | addIterator (subscription : SubscriptionName) (it : SubscriptionPullIterator κ) :
    Transition order s (.addIterator subscription it)
      { s with block := s.block.addIterator order subscription it }
  | removeIterator (subscription : SubscriptionName) :
    Transition order s (.removeIterator subscription)
      { s with block := s.block.removeIterator subscription }
  | setNeedStop : Transition order s .setNeedStop { s with needStop := true }
  | notifyWaiting (hpc : s.pc = .waiting) :
    Transition order s .notify { s with pc := .woken false }
  | notifyResting (sleep : ℤ) (hpc : s.pc = .resting sleep) :
    Transition order s .notify { s with pc := .loopHead }
  | notifyUnheard (hwaiting : s.pc ≠ .waiting) (hresting : ∀ sleep, s.pc ≠ .resting sleep) :
    Transition order s .notify s
  | stop (hpc : s.pc = .loopHead) (hstop : s.needStop = true) :
    Transition order s .test { s with pc := .stopped }
  | enter (hpc : s.pc = .loopHead) (hstop : s.needStop = false) :
    Transition order s .test { s with pc := .removing }
  | removeFromActive (hpc : s.pc = .removing) :
    Transition order s .removeFromActive
      { s with
        block := s.block.removeFromActive
        pc := .checking (s.block.removeFromActive.activeIterators.size == 0) }
  | wait (noActive : Bool) (hpc : s.pc = .checking noActive)
    (hwaits : s.block.inputIterators.size = 0 ∧ noActive) :
    Transition order s .check { s with pc := .waiting }
  | merge (noActive : Bool) (hpc : s.pc = .checking noActive)
    (hwaits : ¬ (s.block.inputIterators.size = 0 ∧ noActive)) :
    Transition order s .check
      { s with block := s.block.mergeInputToActive order, pc := .merged }
  | wake (timeout : Bool) (hpc : s.pc = .waiting) :
    Transition order s (.wake timeout) { s with pc := .woken timeout }
  | startOver (timeout : Bool) (hpc : s.pc = .woken timeout) (hover : timeout ∨ s.needStop) :
    Transition order s .lockAgain { s with pc := .loopHead }
  | mergeAwake (timeout : Bool) (hpc : s.pc = .woken timeout)
    (hover : ¬ (timeout ∨ s.needStop)) :
    Transition order s .lockAgain
      { s with block := s.block.mergeInputToActive order, pc := .merged }
  | rest (results : SubscriptionName → PullResult) (us : ℤ) (hpc : s.pc = .merged)
    (hending : (pullRound s.block.activeIterators results).ending = .returned ())
    (hsleep : pullSleep us ≠ kSoManyMilliseconds) :
    Transition order s (.pull results us) { s with pc := .resting (pullSleep us) }
  | goOn (results : SubscriptionName → PullResult) (us : ℤ) (hpc : s.pc = .merged)
    (hending : (pullRound s.block.activeIterators results).ending = .returned ())
    (hsleep : pullSleep us = kSoManyMilliseconds) :
    Transition order s (.pull results us) { s with pc := .loopHead }
  | throw (results : SubscriptionName → PullResult) (us : ℤ) (e : Exception)
    (hpc : s.pc = .merged)
    (hending : (pullRound s.block.activeIterators results).ending = .threw e) :
    Transition order s (.pull results us) { s with pc := .loopHead }
  | rested (sleep : ℤ) (hpc : s.pc = .resting sleep) :
    Transition order s .rested { s with pc := .loopHead }

variable {s t : PullThread κ} {order : HashOrder}

theorem transition_of_notify (h : s.step (order, .notify) = some t) :
    Transition order s .notify t := by
  simp only [step] at h
  split at h
  · next hpc =>
    cases h
    exact .notifyWaiting hpc
  · next sleep hpc =>
    cases h
    exact .notifyResting sleep hpc
  · next hwaiting hresting =>
    cases h
    exact .notifyUnheard hwaiting hresting

theorem transition_of_test (h : s.step (order, .test) = some t) : Transition order s .test t := by
  simp only [step] at h
  split at h
  · next hpc =>
    cases h
    by_cases hstop : s.needStop = true
    · rw [if_pos hstop]
      exact .stop hpc hstop
    · rw [if_neg hstop]
      exact .enter hpc (Bool.eq_false_of_not_eq_true hstop)
  · contradiction

theorem transition_of_check (h : s.step (order, .check) = some t) :
    Transition order s .check t := by
  simp only [step] at h
  split at h
  · next noActive hpc =>
    split_ifs at h with hwaits
    · cases h
      exact .wait noActive hpc hwaits
    · cases h
      exact .merge noActive hpc hwaits
  · contradiction

theorem transition_of_lockAgain (h : s.step (order, .lockAgain) = some t) :
    Transition order s .lockAgain t := by
  simp only [step] at h
  split at h
  · next timeout hpc =>
    split_ifs at h with hover
    · cases h
      exact .startOver timeout hpc hover
    · cases h
      exact .mergeAwake timeout hpc hover
  · contradiction

theorem transition_of_pull {results : SubscriptionName → PullResult} {us : ℤ}
    (h : s.step (order, .pull results us) = some t) :
    Transition order s (.pull results us) t := by
  have hover := pullRound_over s.block.activeIterators results
  simp only [step] at h
  split at h
  · next hpc =>
    split at h
    · next hending =>
      cases h
      by_cases hsleep : pullSleep us = kSoManyMilliseconds
      · simpa [hsleep] using Transition.goOn results us hpc hending hsleep
      · simpa [hsleep] using Transition.rest results us hpc hending hsleep
    · next e hending =>
      cases h
      exact .throw results us e hpc hending
    · next hending =>
      rw [hending] at hover
      exact hover.elim
    · next hending =>
      rw [hending] at hover
      exact hover.elim
  · contradiction

theorem transition_of_step {e : PullThreadEvent κ} (h : s.step (order, e) = some t) :
    Transition order s e t := by
  cases e with
  | addIterator | removeIterator | setNeedStop =>
    cases h
    constructor
  | notify => exact transition_of_notify h
  | test => exact transition_of_test h
  | check => exact transition_of_check h
  | lockAgain => exact transition_of_lockAgain h
  | pull results us => exact transition_of_pull h
  | removeFromActive =>
    simp only [step] at h
    split at h
    · next hpc =>
      cases h
      exact .removeFromActive hpc
    · contradiction
  | wake timeout =>
    simp only [step] at h
    split at h
    · next hpc =>
      cases h
      exact .wake timeout hpc
    · contradiction
  | rested =>
    simp only [step] at h
    split at h
    · next sleep hpc =>
      cases h
      exact .rested sleep hpc
    · contradiction

end PullThread

/-! ## The ack thread -/

namespace AckThread

/-- A round with one iterator returns, throws or never ends. -/
inductive Transition (order : HashOrder) (s : AckThread) : AckThreadEvent → AckThread → Prop
  | addDeadlineWatcher (it : ModAckIteratorPtr) (ackID : AckID) (nextAck : TimePoint) :
    Transition order s (.addDeadlineWatcher it ackID nextAck)
      (s.update it (·.addDeadlineWatcher order ackID nextAck))
  | done (it : ModAckIteratorPtr) (ackID : AckID) (sec : ℤ) (action : DoneAction) :
    Transition order s (.done it ackID sec action) (s.update it (·.done order ackID sec action))
  | addIterator (subscription : SubscriptionName) (it : ModAckIteratorPtr) :
    Transition order s (.addIterator subscription it)
      { s with block := s.block.addIterator order subscription it }
  | removeIterator (subscription : SubscriptionName) :
    Transition order s (.removeIterator subscription)
      { s with block := s.block.removeIterator subscription }
  | setNeedStop : Transition order s .setNeedStop { s with needStop := true }
  | notifyWaiting (hpc : s.pc = .waiting) :
    Transition order s .notify { s with pc := .woken false }
  | notifyUnheard (hwaiting : s.pc ≠ .waiting) : Transition order s .notify s
  | stop (hpc : s.pc = .loopHead) (hstop : s.needStop = true) :
    Transition order s .test { s with pc := .stopped }
  | enter (hpc : s.pc = .loopHead) (hstop : s.needStop = false) :
    Transition order s .test
      { s with
        sleep := if s.sleep = kSoManyMilliseconds then 500 else s.sleep
        pc := .removing }
  | removeFromActive (hpc : s.pc = .removing) :
    Transition order s .removeFromActive
      { s with
        block := s.block.removeFromActive
        pc := .checking ({ s with block := s.block.removeFromActive }.keepAliveCount == 0) }
  | wait (noKeepAlives : Bool) (hpc : s.pc = .checking noKeepAlives)
    (hwaits : s.waits noKeepAlives = true) : Transition order s .check { s with pc := .waiting }
  | merge (noKeepAlives : Bool) (hpc : s.pc = .checking noKeepAlives)
    (hwaits : s.waits noKeepAlives = false) : Transition order s .check (s.merge order)
  | wake (timeout : Bool) (hpc : s.pc = .waiting) :
    Transition order s (.wake timeout) { s with pc := .woken timeout }
  | startOver (timeout : Bool) (hpc : s.pc = .woken timeout)
    (hover : s.startsOver timeout = true) :
    Transition order s .lockAgain { s with pc := .loopHead }
  | mergeAwake (timeout : Bool) (hpc : s.pc = .woken timeout)
    (hover : s.startsOver timeout = false) : Transition order s .lockAgain (s.merge order)
  | connect (hpc : s.pc = .merged) :
    Transition order s .connect
      { s with
        needSleep := false
        sleep := kSoManyMilliseconds
        pc := .processing s.active kSoManyMilliseconds }
  | swapPending (it : ModAckIteratorPtr) (rest : List ModAckIteratorPtr) (sleep : ℤ)
    (hpc : s.pc = .processing (it :: rest) sleep) :
    Transition order s .swapPending
      { s.update it fun _ => (s.heap it).iterator.swapPending.1 with
        pc := .inRound it (s.heap it).iterator.swapPending.2.1
          (s.heap it).iterator.swapPending.2.2 rest sleep }
  | finishRound (pseudoNow : TimePoint) (results : List CallResult) (it : ModAckIteratorPtr)
    (acks nacks : AckIDSet) (rest : List ModAckIteratorPtr) (sleep ms : ℤ)
    (hpc : s.pc = .inRound it acks nacks rest sleep) (r : Round)
    (hr : (s.heap it).iterator.finishRound order acks nacks pseudoNow results = r)
    (hending : r.ending = .returned ms) :
    Transition order s (.finishRound pseudoNow results)
      { s with
        heap := Function.update s.heap it ⟨r.iterator, (s.heap it).calls ++ r.calls⟩
        pc := .processing rest (min ms sleep) }
  | throwRound (pseudoNow : TimePoint) (results : List CallResult) (it : ModAckIteratorPtr)
    (acks nacks : AckIDSet) (rest : List ModAckIteratorPtr) (sleep : ℤ) (e : Exception)
    (hpc : s.pc = .inRound it acks nacks rest sleep) (r : Round)
    (hr : (s.heap it).iterator.finishRound order acks nacks pseudoNow results = r)
    (hending : r.ending = .threw e) :
    Transition order s (.finishRound pseudoNow results)
      { s with
        heap := Function.update s.heap it ⟨r.iterator, (s.heap it).calls ++ r.calls⟩
        pc := .loopHead }
  | hangInRound (pseudoNow : TimePoint) (results : List CallResult) (it : ModAckIteratorPtr)
    (acks nacks : AckIDSet) (rest : List ModAckIteratorPtr) (sleep : ℤ)
    (hpc : s.pc = .inRound it acks nacks rest sleep) (r : Round)
    (hr : (s.heap it).iterator.finishRound order acks nacks pseudoNow results = r)
    (hending : ¬ r.ending.Over) :
    Transition order s (.finishRound pseudoNow results)
      { s with
        heap := Function.update s.heap it ⟨r.iterator, (s.heap it).calls ++ r.calls⟩
        pc := .stuck it }
  | endLoop (sleep : ℤ) (hpc : s.pc = .processing [] sleep) :
    Transition order s .endLoop
      { s with
        sleep := sleep
        needSleep := sleep != kSoManyMilliseconds
        pc := .loopHead }

variable {s t : AckThread} {order : HashOrder}

theorem transition_of_notify (h : s.step (order, .notify) = some t) :
    Transition order s .notify t := by
  simp only [step] at h
  split at h
  · next hpc =>
    cases h
    exact .notifyWaiting hpc
  · next hwaiting =>
    cases h
    exact .notifyUnheard hwaiting

theorem transition_of_test (h : s.step (order, .test) = some t) : Transition order s .test t := by
  simp only [step] at h
  split at h
  · next hpc =>
    by_cases hstop : s.needStop = true
    · rw [if_pos hstop] at h
      cases h
      exact .stop hpc hstop
    · rw [if_neg hstop] at h
      cases h
      exact .enter hpc (Bool.eq_false_of_not_eq_true hstop)
  · contradiction

theorem transition_of_check (h : s.step (order, .check) = some t) :
    Transition order s .check t := by
  simp only [step] at h
  split at h
  · next noKeepAlives hpc =>
    split_ifs at h with hwaits
    · cases h
      exact .wait noKeepAlives hpc hwaits
    · cases h
      exact .merge noKeepAlives hpc (Bool.eq_false_of_not_eq_true hwaits)
  · contradiction

theorem transition_of_lockAgain (h : s.step (order, .lockAgain) = some t) :
    Transition order s .lockAgain t := by
  simp only [step] at h
  split at h
  · next timeout hpc =>
    split_ifs at h with hover
    · cases h
      exact .startOver timeout hpc hover
    · cases h
      exact .mergeAwake timeout hpc (Bool.eq_false_of_not_eq_true hover)
  · contradiction

theorem transition_of_finishRound {pseudoNow : TimePoint} {results : List CallResult}
    (h : s.step (order, .finishRound pseudoNow results) = some t) :
    Transition order s (.finishRound pseudoNow results) t := by
  simp only [step] at h
  split at h
  · next it acks nacks rest sleep hpc =>
    cases hending : ((s.heap it).iterator.finishRound order acks nacks pseudoNow
      results).ending with
    | returned ms =>
      rw [hending] at h
      cases h
      exact .finishRound pseudoNow results it acks nacks rest sleep ms hpc _ rfl hending
    | threw e =>
      rw [hending] at h
      cases h
      exact .throwRound pseudoNow results it acks nacks rest sleep e hpc _ rfl hending
    | terminated | calling =>
      rw [hending] at h
      cases h
      exact .hangInRound pseudoNow results it acks nacks rest sleep hpc _ rfl
        (by rw [hending]; exact id)
  · contradiction

theorem transition_of_step {e : AckThreadEvent} (h : s.step (order, e) = some t) :
    Transition order s e t := by
  cases e with
  | addDeadlineWatcher | done | addIterator | removeIterator | setNeedStop =>
    cases h
    constructor
  | notify => exact transition_of_notify h
  | test => exact transition_of_test h
  | check => exact transition_of_check h
  | lockAgain => exact transition_of_lockAgain h
  | finishRound pseudoNow results => exact transition_of_finishRound h
  | removeFromActive =>
    simp only [step] at h
    split at h
    · next hpc =>
      cases h
      exact .removeFromActive hpc
    · contradiction
  | wake timeout =>
    simp only [step] at h
    split at h
    · next hpc =>
      cases h
      exact .wake timeout hpc
    · contradiction
  | connect =>
    simp only [step] at h
    split at h
    · next hpc =>
      cases h
      exact .connect hpc
    · contradiction
  | swapPending =>
    simp only [step] at h
    split at h
    · next it rest sleep hpc =>
      cases h
      exact .swapPending it rest sleep hpc
    · contradiction
  | endLoop =>
    simp only [step] at h
    split at h
    · next sleep hpc =>
      cases h
      exact .endLoop sleep hpc
    · contradiction

end AckThread

end Pubsuber
