import Pubsuber.Ack.Round
import Pubsuber.Executor.Registration

/-!
# One round of a worker over its active iterators

`ForEachActive` is a plain loop, and both threads catch exceptions around the
whole of it. The subscriptions after a failing one in the iteration order are
therefore not served in that round.
-/

namespace Pubsuber

open HashContainer

variable {π σ κ : Type}

/-- A loop over the active iterators: those that were called and how it ended. -/
structure Sweep (π σ : Type) where
  called : List (SubscriptionName × π)
  ending : Ending σ

/-- The block may update captured variables, here threaded as `σ`. -/
def forEachActive (b : σ → SubscriptionName × π → Ending σ) :
    σ → List (SubscriptionName × π) → Sweep π σ
  | captured, [] => ⟨[], .returned captured⟩
  | captured, pair :: pairs =>
    match b captured pair with
    | .returned captured =>
      let s := forEachActive b captured pairs
      ⟨pair :: s.called, s.ending⟩
    | .threw e => ⟨[pair], .threw e⟩
    | .terminated => ⟨[pair], .terminated⟩
    | .calling => ⟨[pair], .calling⟩

theorem forEachActive_called_initial (b : σ → SubscriptionName × π → Ending σ) (captured : σ)
    (pairs : List (SubscriptionName × π)) : (forEachActive b captured pairs).called <+: pairs := by
  induction pairs generalizing captured with
  | nil => exact List.prefix_refl _
  | cons pair pairs ih =>
    simp only [forEachActive]
    split
    · exact (List.prefix_cons_inj pair).mpr (ih _)
    · exact List.prefix_append [pair] pairs
    · exact List.prefix_append [pair] pairs
    · exact List.prefix_append [pair] pairs

/-- The loop reaches the end of the list exactly when every call before the last
one returns. -/
theorem forEachActive_called_iff (b : σ → SubscriptionName × π → Ending σ)
    (Returns : SubscriptionName × π → Prop)
    (hreturns : ∀ captured pair, (b captured pair).Returns ↔ Returns pair) (captured : σ)
    (pairs : List (SubscriptionName × π)) :
    (forEachActive b captured pairs).called = pairs ↔ ∀ pair ∈ pairs.dropLast, Returns pair := by
  induction pairs generalizing captured with
  | nil => simp [forEachActive]
  | cons pair pairs ih =>
    cases pairs with
    | nil =>
      simp only [forEachActive]
      split <;> simp
    | cons next rest =>
      rw [List.dropLast_cons_cons]
      have hpair := hreturns captured pair
      rw [forEachActive]
      split
      · rename_i captured' hb
        rw [List.cons_eq_cons, ih captured']
        simp [← hpair, hb, Ending.Returns]
      all_goals
        rename_i hb
        simp [← hpair, hb, Ending.Returns]

theorem count_called_iff (active : IteratorContainer π) {called : List (SubscriptionName × π)}
    (hinitial : called <+: active.toList) :
    (∀ subscription ∈ active.keys, (called.map Prod.fst).count subscription = 1) ↔
      called = active.toList := by
  obtain ⟨rest, hrest⟩ := hinitial
  have hnodup : (called.map Prod.fst ++ rest.map Prod.fst).Nodup := by
    rw [← List.map_append, hrest]
    exact active.keys_nodup
  constructor
  · intro h
    cases rest with
    | nil => simpa using hrest
    | cons pair rest =>
      have hmem : pair.1 ∈ active.keys := Unordered.key_mem_keys (by rw [← hrest]; simp)
      have hcalled : pair.1 ∈ called.map Prod.fst :=
        List.count_pos_iff.mp (by rw [h pair.1 hmem]; exact Nat.one_pos)
      exact absurd (List.mem_map_of_mem List.mem_cons_self)
        ((List.disjoint_of_nodup_append hnodup) hcalled)
  · intro h subscription hmem
    rw [h]
    exact List.count_eq_one_of_mem active.keys_nodup hmem

/-! ## The two loops -/

/-- What a call of `SubscriptionPullIterator::Pull` meets: the status of the
request and, if messages are delivered, the exception a callback throws. -/
structure PullResult where
  status : Status
  callbackThrows : Option Exception

structure PullRequest where
  subscription : SubscriptionName
  maxMessages : ℤ
  returnImmediately : Bool
  deriving DecidableEq, Repr

def SubscriptionPullIterator.request (it : SubscriptionPullIterator κ) : PullRequest :=
  ⟨it.subscriptionName, it.maxMessagePrefetch, true⟩

def SubscriptionPullIterator.pull (it : SubscriptionPullIterator κ) (r : PullResult) :
    Ending Unit :=
  match r.status.code with
  | .ok =>
    match r.callbackThrows with
    | none => .returned ()
    | some e => .threw e
  | code => .threw
      { what := "Pubsuber: Pull of " ++ it.subscriptionName ++ " failed with error " ++
          toString code.toNat ++ ": " ++ r.status.message
        code := code.toNat }

/-- `Executor::Pull`, up to the time it asks the thread to wait. -/
def pullRound (active : IteratorContainer (SubscriptionPullIterator κ))
    (results : SubscriptionName → PullResult) : Sweep (SubscriptionPullIterator κ) Unit :=
  forEachActive (fun _ pair => pair.2.pull (results pair.1)) () active.toList

/-- The round of one iterator in a run of the ack loop. -/
def ackRoundOf (order : HashOrder) (now : SubscriptionName → TimePoint)
    (results : SubscriptionName → List CallResult) (pair : SubscriptionName × ModAckIterator) :
    Round :=
  pair.2.processModAcks order (now pair.1) (results pair.1)

/-- `Executor::ProcessModAcks`; the captured variable is `sleep`. -/
def ackRound (order : HashOrder) (active : IteratorContainer ModAckIterator)
    (now : SubscriptionName → TimePoint) (results : SubscriptionName → List CallResult) :
    Sweep ModAckIterator ℤ :=
  forEachActive (fun sleep pair => (ackRoundOf order now results pair).ending.map (min · sleep))
    kSoManyMilliseconds active.toList

def Sweep.requestsFor {ρ : Type} (s : Sweep π σ) (requests : SubscriptionName × π → List ρ)
    (subscription : SubscriptionName) : List ρ :=
  (s.called.filter fun pair => pair.1 = subscription).flatMap requests

/-- Every active subscription is called exactly once. -/
def Sweep.ServesAll (s : Sweep π σ) (active : IteratorContainer π) : Prop :=
  ∀ subscription ∈ active.keys, (s.called.map Prod.fst).count subscription = 1

theorem Sweep.requestsFor_congr {ρ : Type} {s t : Sweep π σ} (h : s.called = t.called)
    {f g : SubscriptionName × π → List ρ} {subscription : SubscriptionName}
    (hfg : ∀ it, f (subscription, it) = g (subscription, it)) :
    s.requestsFor f subscription = t.requestsFor g subscription := by
  rw [requestsFor, requestsFor, h]
  apply List.flatMap_congr
  rintro ⟨name, it⟩ hmem
  obtain ⟨-, hname⟩ := List.mem_filter.mp hmem
  have hname : name = subscription := by simpa using hname
  subst hname
  exact hfg it

/-- Every call of `Pull` but the last of the iteration order returns. -/
def PullsReturn (active : IteratorContainer (SubscriptionPullIterator κ))
    (results : SubscriptionName → PullResult) : Prop :=
  ∀ pair ∈ active.toList.dropLast, (pair.2.pull (results pair.1)).Returns

/-- Every call of `ProcessModAcks` but the last of the iteration order returns. -/
def RoundsReturn (order : HashOrder) (active : IteratorContainer ModAckIterator)
    (now : SubscriptionName → TimePoint) (results : SubscriptionName → List CallResult) : Prop :=
  ∀ pair ∈ active.toList.dropLast, (ackRoundOf order now results pair).ending.Returns

theorem pullRound_called_initial (active : IteratorContainer (SubscriptionPullIterator κ))
    (results : SubscriptionName → PullResult) :
    (pullRound active results).called <+: active.toList :=
  forEachActive_called_initial _ _ _

theorem ackRound_called_initial (order : HashOrder) (active : IteratorContainer ModAckIterator)
    (now : SubscriptionName → TimePoint) (results : SubscriptionName → List CallResult) :
    (ackRound order active now results).called <+: active.toList :=
  forEachActive_called_initial _ _ _

theorem pullRound_called_iff (active : IteratorContainer (SubscriptionPullIterator κ))
    (results : SubscriptionName → PullResult) :
    (pullRound active results).called = active.toList ↔ PullsReturn active results :=
  forEachActive_called_iff _
    (fun pair : SubscriptionName × SubscriptionPullIterator κ =>
      (pair.2.pull (results pair.1)).Returns) (fun _ _ => Iff.rfl) () active.toList

theorem ackRound_called_iff (order : HashOrder) (active : IteratorContainer ModAckIterator)
    (now : SubscriptionName → TimePoint) (results : SubscriptionName → List CallResult) :
    (ackRound order active now results).called = active.toList ↔
      RoundsReturn order active now results :=
  forEachActive_called_iff _ (fun pair => (ackRoundOf order now results pair).ending.Returns)
    (fun _ _ => Ending.returns_map) _ active.toList

/-- Both loops call every active subscription once exactly when every call but the
last of the iteration order returns; in two rounds for which this holds, the
requests for a subscription depend on its own outcomes only. -/
theorem servesAll_iff (order : HashOrder)
    (pulls : IteratorContainer (SubscriptionPullIterator κ))
    (acks : IteratorContainer ModAckIterator) (now : SubscriptionName → TimePoint) :
    (∀ results, (pullRound pulls results).ServesAll pulls ↔ PullsReturn pulls results) ∧
    (∀ results, (ackRound order acks now results).ServesAll acks ↔
      RoundsReturn order acks now results) ∧
    (∀ failing results results', (∀ s, s ≠ failing → results s = results' s) →
      PullsReturn pulls results → PullsReturn pulls results' → ∀ s, s ≠ failing →
        (pullRound pulls results).requestsFor (fun pair => [pair.2.request]) s =
          (pullRound pulls results').requestsFor (fun pair => [pair.2.request]) s) ∧
    ∀ failing results results', (∀ s, s ≠ failing → results s = results' s) →
      RoundsReturn order acks now results → RoundsReturn order acks now results' →
      ∀ s, s ≠ failing →
        (ackRound order acks now results).requestsFor
            (fun pair => (ackRoundOf order now results pair).calls.map Call.request) s =
          (ackRound order acks now results').requestsFor
            (fun pair => (ackRoundOf order now results' pair).calls.map Call.request) s := by
  refine ⟨fun results => ?_, fun results => ?_, ?_, ?_⟩
  · exact (count_called_iff pulls (pullRound_called_initial pulls results)).trans
      (pullRound_called_iff pulls results)
  · exact (count_called_iff acks (ackRound_called_initial order acks now results)).trans
      (ackRound_called_iff order acks now results)
  · intro failing results results' _ h h' s _
    have hcalled := ((pullRound_called_iff pulls results).mpr h).trans
      ((pullRound_called_iff pulls results').mpr h').symm
    exact Sweep.requestsFor_congr hcalled fun _ => rfl
  · intro failing results results' hsame h h' s hs
    have hcalled := ((ackRound_called_iff order acks now results).mpr h).trans
      ((ackRound_called_iff order acks now results').mpr h').symm
    refine Sweep.requestsFor_congr hcalled fun it => ?_
    simp only [ackRoundOf, hsame s hs]

/-- Two subscriptions; "deleted" comes first in the iteration order. -/
def deletedFirst : IteratorContainer (SubscriptionPullIterator Unit) :=
  ⟨[("deleted", ⟨"deleted", 4, (), 1⟩), ("live", ⟨"live", 4, (), 2⟩)], by decide⟩

def received : PullResult := ⟨⟨.ok, ""⟩, none⟩

def deletedGone : SubscriptionName → PullResult
  | "deleted" => ⟨⟨.notFound, "gone"⟩, none⟩
  | _ => received

def bothPending : IteratorContainer ModAckIterator :=
  ⟨[("deleted", (ModAckIterator.create "deleted" emptyDistribution).done .newestFirst "a" 1 .ack),
    ("live", (ModAckIterator.create "live" emptyDistribution).done .newestFirst "b" 1 .ack)],
    by decide⟩

def deletedFails : SubscriptionName → List CallResult
  | "deleted" => [.ok (⟨.notFound, "gone"⟩, 0)]
  | _ => [okAt 0]

/-- The subscription after the deleted one is neither pulled nor acknowledged, and it
would be if the calls for the deleted one succeeded. -/
theorem not_servesAll :
    ¬ (pullRound deletedFirst deletedGone).ServesAll deletedFirst ∧
    (pullRound deletedFirst deletedGone).requestsFor (fun pair => [pair.2.request]) "live" = [] ∧
    (pullRound deletedFirst fun _ => received).requestsFor (fun pair => [pair.2.request]) "live" =
      [⟨"live", 4, true⟩] ∧
    ¬ (ackRound .newestFirst bothPending (fun _ => 0) deletedFails).ServesAll bothPending ∧
    (ackRound .newestFirst bothPending (fun _ => 0) deletedFails).requestsFor (fun pair =>
      (ackRoundOf .newestFirst (fun _ => 0) deletedFails pair).calls.map Call.request) "live" =
        [] ∧
    (ackRound .newestFirst bothPending (fun _ => 0) fun _ => [okAt 0]).requestsFor (fun pair =>
      (ackRoundOf .newestFirst (fun _ => 0) (fun _ => [okAt 0]) pair).calls.map Call.request)
        "live" = [.acknowledge "live" ["b"]] := by
  refine ⟨fun h => ?_, by decide, by decide, fun h => ?_, by decide +kernel, by decide +kernel⟩
  · exact absurd (h "live" (by decide)) (by decide)
  · exact absurd (h "live" (by decide +kernel)) (by decide +kernel)

def liveGone : SubscriptionName → PullResult
  | "live" => ⟨⟨.notFound, "gone"⟩, none⟩
  | _ => received

theorem servesAll_iff_lastFails :
    (pullRound deletedFirst liveGone).ServesAll deletedFirst ∧
    (ackRound .newestFirst bothPending (fun _ => 0) fun _ => [okAt 0]).ServesAll bothPending ∧
    ∀ s, s ≠ "live" →
      (pullRound deletedFirst fun _ => received).requestsFor (fun pair => [pair.2.request]) s =
        (pullRound deletedFirst liveGone).requestsFor (fun pair => [pair.2.request]) s := by
  have h := servesAll_iff .newestFirst deletedFirst bothPending fun _ => 0
  have hpulls : ∀ results : SubscriptionName → PullResult, results "deleted" = received →
      PullsReturn deletedFirst results := by
    intro results hresults pair hpair
    obtain rfl : pair = ("deleted", ⟨"deleted", 4, (), 1⟩) := by
      simpa [deletedFirst] using hpair
    exact ⟨(), by simp [SubscriptionPullIterator.pull, hresults, received]⟩
  refine ⟨(h.1 _).mpr (hpulls _ rfl), (h.2.1 _).mpr ?_, ?_⟩
  · intro pair hpair
    obtain rfl : pair = ("deleted", (ModAckIterator.create "deleted" emptyDistribution).done
        .newestFirst "a" 1 .ack) := by
      simpa [bothPending] using hpair
    exact ⟨kSoManyMilliseconds, by decide +kernel⟩
  · exact h.2.2.1 "live" _ _ (fun s _ => by simp [liveGone]) (hpulls _ rfl) (hpulls _ rfl)

end Pubsuber
