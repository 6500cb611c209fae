import Pubsuber.Ack.Algorithms
import Pubsuber.Ack.Distribution
import Pubsuber.Retry.Status

/-!
# The ack iterator of one subscription

`ModAckIterator.cpp`. A remote call is represented by what `make_call` hands
back: an exception after the retries, or a status with the clock reading taken
before the attempt that got it. A round consumes a list of such results, one a
call, and is left in the middle of `make_call` when the list ends. Everything a
round does outside the swap happens on the ack thread alone, so it is a
function of the keep-alive map and of these results.

The weak reference to the executor is taken to be valid: the source treats the
other branch as an ownership error, logs it and does nothing.
-/

namespace Pubsuber

open HashContainer

/-- A deadline is an `AckDeadline()` of 600 seconds at most or 0, so the cast to `int` keeps
it. -/
inductive Request
  | acknowledge (subscription : String) (ackIDs : List AckID)
  | modifyAckDeadline (subscription : String) (ackDeadlineSeconds : ℤ) (ackIDs : List AckID)
  deriving DecidableEq, Repr

def Request.ackIDs : Request → List AckID
  | .acknowledge _ ackIDs => ackIDs
  | .modifyAckDeadline _ _ ackIDs => ackIDs

/-- A request passed to `make_call`; no result while the call is under way. -/
structure Call where
  request : Request
  result : Option CallResult

/-- A function run up to some point: the keep-alive map, the calls made so far
and the results not yet consumed. -/
structure Progress (α : Type) where
  keepAlive : WatchDescrContainer
  calls : List Call
  results : List CallResult
  ending : Ending α

/-- A piece of the round as a function of the keep-alive map and of the results
of the calls to come. -/
structure Rpc (α : Type) where
  run : WatchDescrContainer → List CallResult → Progress α

namespace Rpc

protected def pure {α : Type} (a : α) : Rpc α where
  run keepAlive results := ⟨keepAlive, [], results, .returned a⟩

protected def bind {α β : Type} (x : Rpc α) (f : α → Rpc β) : Rpc β where
  run keepAlive results :=
  let p := x.run keepAlive results
  match p.ending with
  | .returned a =>
    let q := (f a).run p.keepAlive p.results
    ⟨q.keepAlive, p.calls ++ q.calls, q.results, q.ending⟩
  | .threw e => ⟨p.keepAlive, p.calls, p.results, .threw e⟩
  | .terminated => ⟨p.keepAlive, p.calls, p.results, .terminated⟩
  | .calling => ⟨p.keepAlive, p.calls, p.results, .calling⟩

instance : Monad Rpc where
  pure := Rpc.pure
  bind := Rpc.bind

def modifyKeepAlive (f : WatchDescrContainer → WatchDescrContainer) : Rpc Unit where
  run keepAlive results := ⟨f keepAlive, [], results, .returned ()⟩

def getKeepAlive : Rpc WatchDescrContainer where
  run keepAlive results := ⟨keepAlive, [], results, .returned keepAlive⟩

/-- Evaluation of a `noexcept` function that may throw. -/
def orTerminate {α : Type} : Option α → Rpc α
  | some a => Rpc.pure a
  | none => ⟨fun keepAlive results => ⟨keepAlive, [], results, .terminated⟩⟩

end Rpc

def kMaxPayload : ℕ := 512 * 1024

/-- Milliseconds. -/
def kSoManyMilliseconds : ℤ := 1000000000

/-- The `switch` that ends `ExtendAckDeadlines` and `AckMessages`, which throw
the same text. -/
def checkStatus (result : CallResult) : Except Exception TimePoint :=
  match result with
  | .error e => .error e
  | .ok (status, now) =>
    match status.code with
    | .ok => .ok now
    | code => .error
        { what := "Pubsuber: ModifyAckDeadline failed with error " ++ toString code.toNat ++
            ": " ++ status.message
          code := code.toNat }

section Loops

variable {α : Type} {key : α → AckID}

/-- `while (!ids.empty())`: split off a batch, send it and run the callback. -/
def sendBatches (order : HashOrder) (request : List AckID → Request)
    (callback : TimePoint → Unordered key → WatchDescrContainer → WatchDescrContainer) :
    Unordered key → WatchDescrContainer → List CallResult → Progress Unit
  | ids, keepAlive, [] =>
    if ids.isEmpty then ⟨keepAlive, [], [], .returned ()⟩
    else
      let batch := splitRequestIds order ids .empty kMaxPayload
      ⟨keepAlive, [⟨request (populateAckIds batch.2), none⟩], [], .calling⟩
  | ids, keepAlive, result :: results =>
    if ids.isEmpty then ⟨keepAlive, [], result :: results, .returned ()⟩
    else
      let batch := splitRequestIds order ids .empty kMaxPayload
      let call : Call := ⟨request (populateAckIds batch.2), some result⟩
      match checkStatus result with
      | .error e => ⟨keepAlive, [call], results, .threw e⟩
      | .ok now =>
        let p := sendBatches order request callback batch.1 (callback now batch.2 keepAlive)
          results
        ⟨p.keepAlive, call :: p.calls, p.results, p.ending⟩

end Loops

variable (order : HashOrder) (subscriptionName : String)

/-- `AckMessages` for every batch. -/
def sendAcks (ids : AckIDSet) : Rpc Unit where
  run := sendBatches order (.acknowledge subscriptionName) (fun _ _ keepAlive => keepAlive) ids

/-- `ExtendAckDeadlines` with a deadline of 0s for every batch. -/
def sendNacks (ids : AckIDSet) : Rpc Unit where
  run :=
    sendBatches order (.modifyAckDeadline subscriptionName 0) (fun _ _ keepAlive => keepAlive) ids

/-- `UpdateNextAck` through the iterator of every pack of a batch that was sent. -/
def updateNextAcks (next : TimePoint) (toSend : AckIDPackSet) (keepAlive : WatchDescrContainer) :
    WatchDescrContainer :=
  toSend.toList.foldl (fun c pack =>
    c.update pack.2 (fun entry => (entry.1, entry.2.updateNextAck next)) fun _ => rfl) keepAlive

/-- The predicate of `ModifyAckDeadlines`; `gracePeriod` is in seconds and the
captured `sleepTime` in milliseconds. -/
def extendNow (gracePeriod : ℤ) (pseudoNow : TimePoint) (sleepTime : ℤ)
    (descr : AckWatchDescriptior) : Bool × ℤ :=
  let ms := descr.extendIn pseudoNow
  if ms > gracePeriod * 1000 then (false, min sleepTime ms) else (true, sleepTime)

/-- `dl` and `gracePeriod` in seconds, the result in milliseconds. Times are `int64_t`
nanoseconds in the source; they are readings of the steady clock, and `dl` is 600 seconds at
most, so no sum leaves that range. -/
def modifyAckDeadlines (dl gracePeriod : ℤ) (pseudoNow : TimePoint) : Rpc ℤ := do
  let ids ← Rpc.getKeepAlive
  if ids.isEmpty then return kSoManyMilliseconds
  let (toModify, sleepTime) :=
    giveMeTheKeys order ids .empty (extendNow gracePeriod pseudoNow) kSoManyMilliseconds
  if toModify.isEmpty then return sleepTime / 2
  Rpc.mk (sendBatches order (.modifyAckDeadline subscriptionName dl)
    (fun now => updateNextAcks (now + dl * 1000000000)) toModify)
  return kSoManyMilliseconds

inductive DoneAction
  | ack
  | nack
  deriving DecidableEq, Repr

/-- The containers of an iterator. `Done` keeps the two pending sets disjoint. -/
structure ModAckIterator where
  subscriptionName : String
  /-- Seconds. -/
  gracePeriod : ℤ
  ackDist : AckDistribution
  inputAckIDs : WatchDescrContainer
  pendingAckIDs : AckIDSet
  pendingNackIDs : AckIDSet
  keepAliveAckIDs : WatchDescrContainer
  disjoint : ∀ ackID ∈ pendingAckIDs.keys, ackID ∉ pendingNackIDs.keys

structure Round where
  iterator : ModAckIterator
  calls : List Call
  results : List CallResult
  ending : Ending ℤ

namespace ModAckIterator

/-- The constructor does not initialize the counters of `_ackDist`. -/
def create (ackDist : AckDistribution) : ModAckIterator where
  subscriptionName := subscriptionName
  gracePeriod := kMinAckDeadline / 2
  ackDist := ackDist
  inputAckIDs := .empty
  pendingAckIDs := .empty
  pendingNackIDs := .empty
  keepAliveAckIDs := .empty
  disjoint := by simp

def addDeadlineWatcher (it : ModAckIterator) (ackID : AckID) (nextAck : TimePoint) :
    ModAckIterator :=
  { it with inputAckIDs := it.inputAckIDs.insertOrAssign order (ackID, ⟨nextAck⟩) }

/-- `sec` is the handling time in whole seconds. -/
def done (it : ModAckIterator) (ackID : AckID) (sec : ℤ) (action : DoneAction) :
    ModAckIterator :=
  let ackDist := it.ackDist.record (UInt64.ofInt sec)
  match action with
  | .ack =>
    { it with
      ackDist := ackDist
      pendingNackIDs := it.pendingNackIDs.erase ackID
      pendingAckIDs := it.pendingAckIDs.emplace order ackID
      disjoint := by
        intro k hk hn
        obtain ⟨hn, hne⟩ := Unordered.mem_keys_erase.mp hn
        rcases (Unordered.mem_keys_emplace order).mp hk with h | h
        · exact hne h
        · exact it.disjoint k h hn }
  | .nack =>
    { it with
      ackDist := ackDist
      pendingAckIDs := it.pendingAckIDs.erase ackID
      pendingNackIDs := it.pendingNackIDs.emplace order ackID
      disjoint := by
        intro k hk hn
        obtain ⟨hk, hne⟩ := Unordered.mem_keys_erase.mp hk
        rcases (Unordered.mem_keys_emplace order).mp hn with h | h
        · exact hne h
        · exact it.disjoint k hk h }

/-- `merge` keeps the descriptor of an id that is already watched. -/
def mergeInput (it : ModAckIterator) : ModAckIterator :=
  { it with
    keepAliveAckIDs := it.keepAliveAckIDs.merge order it.inputAckIDs
    inputAckIDs := .empty }

def inputCount (it : ModAckIterator) : ℕ := it.inputAckIDs.size

def keepAliveCount (it : ModAckIterator) : ℕ := it.keepAliveAckIDs.size

/-- The critical section of `ProcessModAcks`: both pending sets move into locals. -/
def swapPending (it : ModAckIterator) : ModAckIterator × AckIDSet × AckIDSet :=
  ({ it with
      pendingAckIDs := .empty
      pendingNackIDs := .empty
      disjoint := by simp }, it.pendingAckIDs, it.pendingNackIDs)

def sendPending (it : ModAckIterator) (pendingAcks pendingNacks : AckIDSet)
    (pseudoNow : TimePoint) : Rpc ℤ := do
  -- erased first, the send loops empty the sets
  Rpc.modifyKeepAlive (eraseKeys · pendingAcks)
  sendAcks order it.subscriptionName pendingAcks
  Rpc.modifyKeepAlive (eraseKeys · pendingNacks)
  sendNacks order it.subscriptionName pendingNacks
  let dl ← Rpc.orTerminate (ackDeadline it.ackDist)
  modifyAckDeadlines order it.subscriptionName dl it.gracePeriod pseudoNow

def finishRound (it : ModAckIterator) (pendingAcks pendingNacks : AckIDSet)
    (pseudoNow : TimePoint) (results : List CallResult) : Round :=
  let p := (it.sendPending order pendingAcks pendingNacks pseudoNow).run it.keepAliveAckIDs
    results
  ⟨{ it with keepAliveAckIDs := p.keepAlive }, p.calls, p.results, p.ending⟩

def processModAcks (it : ModAckIterator) (pseudoNow : TimePoint) (results : List CallResult) :
    Round :=
  let (it, pendingAcks, pendingNacks) := it.swapPending
  it.finishRound order pendingAcks pendingNacks pseudoNow results

end ModAckIterator

end Pubsuber
