import Pubsuber.Ack.Draining
import Pubsuber.Library.NextFit

/-!
# How many requests a send loop makes

A batch ends with the id that does not fit, and the next batch starts with it. So a
loop makes less than twice as many requests as the ids could be packed into.
-/

namespace Pubsuber

open HashContainer

/-- What the ids of one request may cost, less than this. -/
def idBudget : ℕ := kMaxPayload - kReqFixedOverhead

theorem requestCost_lt_iff (ackIDs : List AckID) :
    requestCost ackIDs < kMaxPayload ↔ Greedy.cost idCost ackIDs < idBudget := by
  unfold requestCost idBudget kReqFixedOverhead kMaxPayload
  omega

section Batches

variable {α : Type} {key : α → AckID} (order : HashOrder)

theorem first_mem_batch {ids : Unordered key} (hids : ∀ ackID ∈ ids.keys, Sendable ackID) {x : α}
    {xs : List α} (hx : ids.toList = x :: xs) :
    key x ∈ (splitRequestIds order ids .empty kMaxPayload).2.keys := by
  have hfirst : kReqFixedOverhead + idCost (key x) < kMaxPayload :=
    hids (key x) (Unordered.key_mem_keys (by simp [hx]))
  have hbatch := splitRequestIds_snd_perm order kMaxPayload_le ids .empty
    fun ackID h => (hids ackID h).admitted
  apply Unordered.key_mem_keys
  rw [hbatch.mem_iff, hx, Greedy.taken, if_pos hfirst]
  exact List.mem_cons_self

/-- A batch and the id behind it do not fit into one request. -/
theorem batch_maximal {ids : Unordered key} (hids : ∀ ackID ∈ ids.keys, Sendable ackID) {x : α}
    {xs : List α}
    (hx : (splitRequestIds order ids .empty kMaxPayload).1.toList = x :: xs) :
    idBudget ≤ Greedy.cost idCost (splitRequestIds order ids .empty kMaxPayload).2.keys +
      idCost (key x) := by
  have hspec := (splitRequestIds_spec order ids .empty kMaxPayload kMaxPayload_le
    fun ackID h => (hids ackID h).admitted).1
  rcases hspec.maximal with hnone | hsmall | ⟨y, ys, hy, hmaximal⟩
  · rw [hx] at hnone
    contradiction
  · exact absurd hsmall (by decide)
  · obtain ⟨rfl, -⟩ := List.cons_eq_cons.mp (hx.symm.trans hy)
    unfold requestCost at hmaximal
    unfold idBudget
    omega

variable (request : List AckID → Request)
variable (callback : TimePoint → Unordered key → WatchDescrContainer → WatchDescrContainer)

theorem sendBatches_head (hreq : ∀ l, (request l).ackIDs = l) {ids : Unordered key}
    (hids : ∀ ackID ∈ ids.keys, Sendable ackID) {x : α} {xs : List α}
    (hx : ids.toList = x :: xs) (keepAlive : WatchDescrContainer) (results : List CallResult) :
    ∃ c calls, (sendBatches order request callback ids keepAlive results).calls = c :: calls ∧
      idCost (key x) ≤ Greedy.cost idCost c.request.ackIDs := by
  have hle : idCost (key x) ≤ Greedy.cost idCost (request (populateAckIds
      (splitRequestIds order ids .empty kMaxPayload).2)).ackIDs := by
    rw [hreq]
    exact Greedy.le_cost_of_mem idCost (first_mem_batch order hids hx)
  have hne : ¬ ids.isEmpty = true := by simp [Unordered.keys, hx]
  cases results with
  | nil =>
    rw [sendBatches, if_neg hne]
    exact ⟨_, _, rfl, hle⟩
  | cons result results =>
    rw [sendBatches, if_neg hne]
    dsimp only
    split
    · exact ⟨_, _, rfl, hle⟩
    · exact ⟨_, _, rfl, hle⟩

/-- Two requests in a row do not fit into one. -/
theorem sendBatches_tight (hreq : ∀ l, (request l).ackIDs = l) (ids : Unordered key)
    (keepAlive : WatchDescrContainer) (results : List CallResult)
    (hids : ∀ ackID ∈ ids.keys, Sendable ackID) :
    ((sendBatches order request callback ids keepAlive results).calls.map
      (·.request.ackIDs)).IsChain (Greedy.Tight idCost idBudget) := by
  fun_induction sendBatches order request callback ids keepAlive results with
  | case1 => simp
  | case2 => simp
  | case3 => simp
  | case4 => simp
  | case5 ids keepAlive result results hne batch call now hok p ih =>
    have hrest : ∀ ackID ∈ batch.1.keys, Sendable ackID :=
      fun ackID h => hids ackID (keys_rest_subset order ids h)
    rw [List.map_cons]
    cases hlist : batch.1.toList with
    | nil =>
      have hempty : batch.1.keys = [] := by simp [Unordered.keys, hlist]
      have hnone : p.calls = [] := by
        unfold p
        rw [sendBatches_of_empty order request callback hempty]
      rw [hnone]
      exact List.isChain_singleton _
    | cons x xs =>
      obtain ⟨c, calls, hcalls, hle⟩ := sendBatches_head order request callback hreq hrest hlist
        (callback now batch.2 keepAlive) results
      have hchain : (p.calls.map (·.request.ackIDs)).IsChain (Greedy.Tight idCost idBudget) :=
        ih hrest
      have hcalls : p.calls = c :: calls := hcalls
      rw [hcalls, List.map_cons] at hchain ⊢
      refine List.isChain_cons_cons.mpr ⟨?_, hchain⟩
      have hmaximal := batch_maximal order hids hlist
      have hids : call.request.ackIDs = batch.2.keys := hreq _
      unfold Greedy.Tight
      rw [hids]
      exact hmaximal.trans (Nat.add_le_add_left hle _)

theorem sendBatches_length_le (hreq : ∀ l, (request l).ackIDs = l) (ids : Unordered key)
    (keepAlive : WatchDescrContainer) (results : List CallResult) {packing : List (List AckID)}
    (hfits : ∀ ackIDs ∈ packing, requestCost ackIDs < kMaxPayload)
    (hcover : ids.keys ⊆ packing.flatten) :
    (sendBatches order request callback ids keepAlive results).calls.length ≤
      2 * packing.length - 1 := by
  have hids : ∀ ackID ∈ ids.keys, Sendable ackID := by
    intro ackID hmem
    obtain ⟨bin, hbin, hmem⟩ := List.mem_flatten.mp (hcover hmem)
    have hle := Greedy.le_cost_of_mem idCost hmem
    have hbin := hfits bin hbin
    unfold requestCost at hbin
    unfold Sendable
    omega
  have hlength := Greedy.length_le_of_packing idCost
    (sendBatches_tight order request callback hreq ids keepAlive results hids) ?_
    (fun bin hbin => (requestCost_lt_iff bin).mp (hfits bin hbin)) ?_
  · simpa using hlength
  · intro piece hpiece
    obtain ⟨c, hc, rfl⟩ := List.mem_map.mp hpiece
    exact sendBatches_nonempty_of_sendable order request callback hreq ids keepAlive results hids
      c hc
  · have hsent := sendBatches_subperm order callback hreq ids keepAlive results
    exact hsent.trans (ids.keys_nodup.subperm hcover)

end Batches

/-- Whatever becomes of the calls, each of the three send loops makes less than twice as
many requests as any packing of its ids into requests below the limit. -/
theorem requests_lt_twice_packing (order : HashOrder) (subscriptionName : String)
    (dl gracePeriod : ℤ) (pseudoNow : TimePoint) (keepAlive : WatchDescrContainer)
    (ids : AckIDSet) (results : List CallResult) {packing : List (List AckID)}
    (hfits : ∀ ackIDs ∈ packing, requestCost ackIDs < kMaxPayload) :
    (ids.keys ⊆ packing.flatten →
      ((sendAcks order subscriptionName ids).run keepAlive results).calls.length ≤
        2 * packing.length - 1) ∧
    (ids.keys ⊆ packing.flatten →
      ((sendNacks order subscriptionName ids).run keepAlive results).calls.length ≤
        2 * packing.length - 1) ∧
    ((∀ ackID, Due keepAlive gracePeriod pseudoNow ackID → ackID ∈ packing.flatten) →
      ((modifyAckDeadlines order subscriptionName dl gracePeriod pseudoNow).run keepAlive
        results).calls.length ≤ 2 * packing.length - 1) := by
  refine ⟨fun hcover => ?_, fun hcover => ?_, fun hcover => ?_⟩
  · exact sendBatches_length_le order _ _ (fun _ => rfl) ids keepAlive results hfits hcover
  · exact sendBatches_length_le order _ _ (fun _ => rfl) ids keepAlive results hfits hcover
  · obtain ⟨-, hcalls, -⟩ := modifyAckDeadlines_loop order subscriptionName dl gracePeriod
      pseudoNow keepAlive results
    rw [hcalls]
    apply sendBatches_length_le order _ _ (fun _ => rfl) _ keepAlive results hfits
    intro ackID hmem
    exact hcover ackID ((mem_keys_toModify order _ _ _ _ _).mp hmem)

/-- Three short ids go into one request. -/
theorem requests_lt_twice_packing_threeIds :
    ((sendAcks .newestFirst "s" threeIds).run .empty [okAt 0]).calls.length ≤ 1 ∧
    ((sendNacks .newestFirst "s" threeIds).run .empty [okAt 0]).calls.length ≤ 1 ∧
    ((modifyAckDeadlines .newestFirst "s" 10 5 0).run threeWatched [okAt 0]).calls.length ≤ 1 := by
  have hfits : ∀ ackIDs ∈ [threeIds.keys], requestCost ackIDs < kMaxPayload := by decide
  have hacks := requests_lt_twice_packing .newestFirst "s" 10 5 0 .empty threeIds [okAt 0] hfits
  have hwatched := requests_lt_twice_packing .newestFirst "s" 10 5 0 threeWatched threeIds
    [okAt 0] hfits
  exact ⟨hacks.1 (by simp), hacks.2.1 (by simp), hwatched.2.2 fun _ hdue => hdue.mem_keys⟩

end Pubsuber
