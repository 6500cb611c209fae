import Pubsuber.Executor.Isolation

/-!
# The pull thread among the other threads

`Executor::PullThreadFunc`, cut at its critical sections, with the updates that
other threads make under `_condMutex` or to `_needStop`, and their
notifications. What a notification does to a thread that does not wait is
nothing.
-/

namespace Pubsuber

open HashContainer

inductive PullPc
  | loopHead
  | removing
  | checking (noActive : Bool)
  | waiting
  /-- The wait is over and the mutex is still to be locked again. -/
  | woken (timeout : Bool)
  | merged
  /-- Waiting for the rest of the time between two pulls. -/
  | resting (sleep : ℤ)
  | stuck
  | stopped
  deriving DecidableEq

structure PullThread (κ : Type) where
  block : ThreadDataBlock (SubscriptionPullIterator κ)
  needStop : Bool
  pc : PullPc

/-- `pull` comes with what the pulls of the round meet and the microseconds they take. -/
inductive PullThreadEvent (κ : Type)
  -- other threads
  | addIterator (subscription : SubscriptionName) (it : SubscriptionPullIterator κ)
  | removeIterator (subscription : SubscriptionName)
  | setNeedStop
  | notify
  -- the pull thread
  | test
  | removeFromActive
  | check
  | wake (timeout : Bool)
  | lockAgain
  | pull (results : SubscriptionName → PullResult) (us : ℤ)
  | rested

/-- Microseconds. -/
def kLowPullLimit : ℤ := 250000

/-- The milliseconds that `Executor::Pull` asks the thread to wait after pulls that took
some microseconds. -/
def pullSleep (us : ℤ) : ℤ :=
  if us > kLowPullLimit then kSoManyMilliseconds else (kLowPullLimit - us).tdiv 1000

namespace PullThread

variable {κ : Type}

/-- `_tr.EnsureConnected()` waits for the channel and throws nothing. -/
def step (s : PullThread κ) : HashOrder × PullThreadEvent κ → Option (PullThread κ)
  | (order, .addIterator subscription it) =>
    some { s with block := s.block.addIterator order subscription it }
  | (_, .removeIterator subscription) =>
    some { s with block := s.block.removeIterator subscription }
  | (_, .setNeedStop) => some { s with needStop := true }
  | (_, .notify) =>
    match s.pc with
    | .waiting => some { s with pc := .woken false }
    | .resting _ => some { s with pc := .loopHead }
    | _ => some s
  | (_, .test) =>
    match s.pc with
    | .loopHead => some { s with pc := if s.needStop then .stopped else .removing }
    | _ => none
  | (_, .removeFromActive) =>
    match s.pc with
    | .removing =>
      let s := { s with block := s.block.removeFromActive }
      some { s with pc := .checking (s.block.activeIterators.size == 0) }
    | _ => none
  | (order, .check) =>
    match s.pc with
    | .checking noActive =>
      if s.block.inputIterators.size = 0 ∧ noActive then some { s with pc := .waiting }
      else some { s with block := s.block.mergeInputToActive order, pc := .merged }
    | _ => none
  | (_, .wake timeout) =>
    match s.pc with
    | .waiting => some { s with pc := .woken timeout }
    | _ => none
  | (order, .lockAgain) =>
    match s.pc with
    | .woken timeout =>
      if timeout ∨ s.needStop then some { s with pc := .loopHead }
      else some { s with block := s.block.mergeInputToActive order, pc := .merged }
    | _ => none
  | (_, .pull results us) =>
    match s.pc with
    | .merged =>
      match (pullRound s.block.activeIterators results).ending with
      | .returned () =>
        some { s with
          pc :=
            if pullSleep us != kSoManyMilliseconds then .resting (pullSleep us)
            else .loopHead }
      | .threw _ => some { s with pc := .loopHead }
      | .terminated => some { s with pc := .stuck }
      | .calling => some { s with pc := .stuck }
    | _ => none
  | (_, .rested) =>
    match s.pc with
    | .resting _ => some { s with pc := .loopHead }
    | _ => none

end PullThread

end Pubsuber
