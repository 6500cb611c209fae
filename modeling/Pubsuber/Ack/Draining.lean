import Pubsuber.Ack.Round
import Pubsuber.Ack.Split

/-!
# Progress of the send loops

Against a server that answers `OK` a send loop gets to its end if every id fits
into a request of its own. An id that does not fit is never taken, and the loop
goes on sending requests without ids.
-/

namespace Pubsuber

open HashContainer

/-- An id that fits into a request of its own. -/
def Sendable (ackID : AckID) : Prop := kReqFixedOverhead + idCost ackID < kMaxPayload

instance (ackID : AckID) : Decidable (Sendable ackID) := inferInstanceAs (Decidable (_ < _))

theorem sendable_iff {ackID : AckID} : Sendable ackID ↔ ackID.utf8ByteSize ≤ 524184 := by
  unfold Sendable idCost kReqFixedOverhead kOverheadPerID kMaxPayload
  omega

theorem Sendable.admitted {ackID : AckID} (h : Sendable ackID) :
    ackID.utf8ByteSize ≤ kMaxSendRecvBytes := by
  have := sendable_iff.mp h
  unfold kMaxSendRecvBytes
  omega

theorem fits_iff_sendable {ackID : AckID} (h : ackID.utf8ByteSize ≤ kMaxSendRecvBytes) :
    Fits kMaxPayload ackID ↔ Sendable ackID := by
  unfold Fits Sendable
  rw [addToSize_eq (by decide) h]

theorem Admitted.of_subset {ackIDs ackIDs' : List AckID} (h : Admitted ackIDs')
    (hsub : ackIDs ⊆ ackIDs') : Admitted ackIDs :=
  fun ackID hmem => h ackID (hsub hmem)

section Batches

variable {α : Type} {key : α → AckID} (order : HashOrder)

theorem kMaxPayload_le : kMaxPayload ≤ 2 ^ 31 - 1 := by decide

theorem keys_rest_subset (ids : Unordered key) :
    (splitRequestIds order ids .empty kMaxPayload).1.keys ⊆ ids.keys :=
  fun _ h => (splitRequestIds_keys_perm order ids .empty kMaxPayload).subset
    (List.mem_append_left _ h)

theorem sendable_of_mem_batch {ids : Unordered key} (hids : Admitted ids.keys) {ackID : AckID}
    (h : ackID ∈ (splitRequestIds order ids .empty kMaxPayload).2.keys) : Sendable ackID := by
  obtain ⟨x, hx, rfl⟩ := Unordered.mem_keys.mp h
  have hbatch := splitRequestIds_snd_perm order kMaxPayload_le ids .empty hids
  exact Greedy.fits_of_mem_taken (fun x => idCost (key x)) _ _ _ (hbatch.mem_iff.mp hx)

theorem mem_rest_of_not_sendable {ids : Unordered key} (hids : Admitted ids.keys)
    {ackID : AckID} (hmem : ackID ∈ ids.keys) (h : ¬ Sendable ackID) :
    ackID ∈ (splitRequestIds order ids .empty kMaxPayload).1.keys := by
  have hperm := splitRequestIds_keys_perm order ids .empty kMaxPayload
  rcases List.mem_append.mp (hperm.mem_iff.mpr hmem) with hrest | hbatch
  · exact hrest
  · exact absurd (sendable_of_mem_batch order hids hbatch) h

theorem rest_length_lt {ids : Unordered key} (hids : ∀ ackID ∈ ids.keys, Sendable ackID)
    (hne : ids.keys ≠ []) :
    (splitRequestIds order ids .empty kMaxPayload).1.keys.length < ids.keys.length := by
  unfold Unordered.keys at hne ⊢
  rw [List.length_map, List.length_map]
  cases hlist : ids.toList with
  | nil =>
    rw [hlist] at hne
    contradiction
  | cons x xs =>
    have hx : Sendable (key x) := hids (key x) (Unordered.key_mem_keys (by simp [hlist]))
    rw [← hlist]
    exact splitRequestIds_length_lt order (by decide) hlist ((fits_iff_sendable hx.admitted).mpr hx)

theorem batch_ne_nil {ids : Unordered key} (hids : ∀ ackID ∈ ids.keys, Sendable ackID)
    (hne : ids.keys ≠ []) :
    (splitRequestIds order ids .empty kMaxPayload).2.keys ≠ [] := by
  have hlt := rest_length_lt order hids hne
  have hperm := (splitRequestIds_keys_perm order ids .empty kMaxPayload).length_eq
  rw [List.length_append] at hperm
  apply List.ne_nil_of_length_pos
  omega

variable (request : List AckID → Request)
variable (callback : TimePoint → Unordered key → WatchDescrContainer → WatchDescrContainer)

/-- Enough good answers bring a loop to its end. -/
theorem sendBatches_returned_of_sendable (ids : Unordered key) (keepAlive : WatchDescrContainer)
    (results : List CallResult) (hids : ∀ ackID ∈ ids.keys, Sendable ackID)
    (hlen : ids.keys.length ≤ results.length) (hok : ∀ r ∈ results, resultOk r = true) :
    (sendBatches order request callback ids keepAlive results).ending = .returned () := by
  induction results generalizing ids keepAlive with
  | nil =>
    have hempty : ids.keys = [] := List.eq_nil_of_length_eq_zero (by simpa using hlen)
    rw [sendBatches_of_empty order request callback hempty]
  | cons result results ih =>
    by_cases hempty : ids.keys = []
    · rw [sendBatches_of_empty order request callback hempty]
    · have hlt := rest_length_lt order hids hempty
      have hrest : ∀ ackID ∈ (splitRequestIds order ids .empty kMaxPayload).1.keys,
          Sendable ackID := fun ackID h => hids ackID (keys_rest_subset order ids h)
      cases hc : checkStatus result with
      | error e =>
        have hresult := hok result List.mem_cons_self
        simp [resultOk, hc, Except.toBool] at hresult
      | ok now =>
        have := ih _ (callback now (splitRequestIds order ids .empty kMaxPayload).2 keepAlive)
          hrest (by rw [List.length_cons] at hlen; omega)
          (fun r hr => hok r (List.mem_cons_of_mem _ hr))
        simpa [sendBatches, hempty, hc] using this

theorem sendBatches_nonempty_of_sendable (hreq : ∀ l, (request l).ackIDs = l)
    (ids : Unordered key) (keepAlive : WatchDescrContainer) (results : List CallResult)
    (hids : ∀ ackID ∈ ids.keys, Sendable ackID) :
    ∀ c ∈ (sendBatches order request callback ids keepAlive results).calls,
      c.request.ackIDs ≠ [] := by
  fun_induction sendBatches order request callback ids keepAlive results with
  | case1 => simp
  | case2 ids keepAlive hne batch =>
    simpa [hreq, populateAckIds, batch] using batch_ne_nil order hids (by simpa using hne)
  | case3 => simp
  | case4 ids keepAlive result results hne batch call e he =>
    simpa [call, hreq, populateAckIds, batch] using batch_ne_nil order hids (by simpa using hne)
  | case5 ids keepAlive result results hne batch call now hok p ih =>
    intro c hc
    rcases List.mem_cons.mp hc with rfl | hc
    · simpa [call, hreq, populateAckIds, batch] using batch_ne_nil order hids (by simpa using hne)
    · exact ih (fun ackID h => hids ackID (keys_rest_subset order ids h)) c hc

theorem sendBatches_calling_of_not_sendable (ids : Unordered key)
    (keepAlive : WatchDescrContainer) (results : List CallResult) (hids : Admitted ids.keys)
    {ackID : AckID} (hmem : ackID ∈ ids.keys) (hbig : ¬ Sendable ackID)
    (hok : ∀ r ∈ results, resultOk r = true) :
    (sendBatches order request callback ids keepAlive results).ending = .calling := by
  have hne : ∀ {ids : Unordered key}, ackID ∈ ids.keys → ids.keys ≠ [] :=
    fun hmem => List.ne_nil_of_mem hmem
  induction results generalizing ids keepAlive with
  | nil => simp [sendBatches, hne hmem]
  | cons result results ih =>
    cases hc : checkStatus result with
    | error e =>
      have hresult := hok result List.mem_cons_self
      simp [resultOk, hc, Except.toBool] at hresult
    | ok now =>
      have := ih _ (callback now (splitRequestIds order ids .empty kMaxPayload).2 keepAlive)
        (hids.of_subset (keys_rest_subset order ids))
        (mem_rest_of_not_sendable order hids hmem hbig)
        (fun r hr => hok r (List.mem_cons_of_mem _ hr))
      simpa [sendBatches, hne hmem, hc] using this

theorem splitRequestIds_of_not_sendable {ids : Unordered key} (hids : Admitted ids.keys)
    {x : α} {xs : List α} (hx : ids.toList = x :: xs) (hbig : ¬ Sendable (key x)) :
    (splitRequestIds order ids .empty kMaxPayload).1 = ids ∧
      (splitRequestIds order ids .empty kMaxPayload).2.keys = [] := by
  have hadmitted := hids (key x) (Unordered.key_mem_keys (by simp [hx]))
  have hrest : (splitRequestIds order ids .empty kMaxPayload).1 = ids :=
    splitRequestIds_of_not_fits order hx (mt (fits_iff_sendable hadmitted).mp hbig)
  have hperm := (splitRequestIds_keys_perm order ids .empty kMaxPayload).length_eq
  rw [List.length_append, hrest] at hperm
  refine ⟨hrest, List.eq_nil_of_length_eq_zero ?_⟩
  omega

/-- From then on all requests are without ids. -/
theorem sendBatches_blocked (hreq : ∀ l, (request l).ackIDs = l) (ids : Unordered key)
    (keepAlive : WatchDescrContainer) (results : List CallResult) (hids : Admitted ids.keys)
    {x : α} {xs : List α} (hx : ids.toList = x :: xs) (hbig : ¬ Sendable (key x)) :
    ∀ c ∈ (sendBatches order request callback ids keepAlive results).calls,
      c.request.ackIDs = [] := by
  have hsplit := splitRequestIds_of_not_sendable order hids hx hbig
  induction results generalizing keepAlive with
  | nil =>
    unfold sendBatches
    split_ifs
    · simp
    · simp [hreq, populateAckIds, hsplit.2]
  | cons result results ih =>
    unfold sendBatches
    split_ifs
    · simp
    · split
      · simp [hreq, populateAckIds, hsplit.2]
      · intro c hc
        rcases List.mem_cons.mp hc with rfl | hc
        · simp [hreq, populateAckIds, hsplit.2]
        · rw [hsplit.1] at hc
          exact ih _ c hc

end Batches

/-- A loop that ends when every request is answered `OK`, and whose requests all
carry ids; it is given as a function of the results of its calls. -/
structure Drains {α : Type} (loop : List CallResult → Progress α) : Prop where
  ends : ∃ n, ∀ results, n ≤ results.length → (∀ r ∈ results, resultOk r = true) →
    (loop results).ending.Returns
  nonempty : ∀ results, (∀ r ∈ results, resultOk r = true) →
    ∀ c ∈ (loop results).calls, c.request.ackIDs ≠ []

theorem Drains.not_of_calling {α : Type} {loop : List CallResult → Progress α}
    (h : ∀ results, (∀ r ∈ results, resultOk r = true) → (loop results).ending = .calling) :
    ¬ Drains loop := by
  intro hdrains
  obtain ⟨n, hn⟩ := hdrains.ends
  have hok : ∀ r ∈ List.replicate n (okAt 0), resultOk r = true := by
    intro r hr
    rw [List.eq_of_mem_replicate hr]
    rfl
  obtain ⟨a, ha⟩ := hn (List.replicate n (okAt 0)) (by simp) hok
  rw [h _ hok] at ha
  contradiction

section Loops

variable {α : Type} {key : α → AckID} (order : HashOrder) {request : List AckID → Request}
variable (callback : TimePoint → Unordered key → WatchDescrContainer → WatchDescrContainer)

theorem sendBatches_drains_iff (hreq : ∀ l, (request l).ackIDs = l) (ids : Unordered key)
    (keepAlive : WatchDescrContainer) (hids : Admitted ids.keys) :
    Drains (sendBatches order request callback ids keepAlive) ↔
      ∀ ackID ∈ ids.keys, Sendable ackID := by
  constructor
  · intro hdrains ackID hmem
    by_contra hbig
    exact Drains.not_of_calling (fun results hok => sendBatches_calling_of_not_sendable order
      request callback ids keepAlive results hids hmem hbig hok) hdrains
  · intro hall
    refine ⟨⟨ids.keys.length, ?_⟩, ?_⟩
    · intro results hlen hok
      exact ⟨(), sendBatches_returned_of_sendable order request callback ids keepAlive results
        hall hlen hok⟩
    · intro results _
      exact sendBatches_nonempty_of_sendable order request callback hreq ids keepAlive results hall

end Loops

theorem Drains.congr {α β : Type} {loop : List CallResult → Progress α}
    {loop' : List CallResult → Progress β}
    (hcalls : ∀ results, (loop results).calls = (loop' results).calls)
    (hends : ∀ results, (loop results).ending.Returns ↔ (loop' results).ending.Returns) :
    Drains loop ↔ Drains loop' := by
  constructor
  · rintro ⟨⟨n, hn⟩, hne⟩
    exact ⟨⟨n, fun results hlen hok => (hends results).mp (hn results hlen hok)⟩,
      fun results hok => hcalls results ▸ hne results hok⟩
  · rintro ⟨⟨n, hn⟩, hne⟩
    exact ⟨⟨n, fun results hlen hok => (hends results).mpr (hn results hlen hok)⟩,
      fun results hok => hcalls results ▸ hne results hok⟩

section Modify

variable (order : HashOrder) (subscriptionName : String) (dl gracePeriod : ℤ)
variable (pseudoNow : TimePoint) (keepAlive : WatchDescrContainer)

/-- The ids that `ModifyAckDeadlines` hands to its loop. -/
def toModify : AckIDPackSet :=
  (giveMeTheKeys order keepAlive .empty (extendNow gracePeriod pseudoNow) kSoManyMilliseconds).1

theorem admitted_toModify (h : Admitted keepAlive.keys) :
    Admitted (toModify order gracePeriod pseudoNow keepAlive).keys := by
  intro ackID hmem
  exact h ackID ((mem_keys_toModify order _ _ _ _ _).mp hmem).mem_keys

/-- `ModifyAckDeadlines` does to the map what its loop does, sends what its loop sends
and returns when its loop does. -/
theorem modifyAckDeadlines_loop (results : List CallResult) :
    let p := (modifyAckDeadlines order subscriptionName dl gracePeriod pseudoNow).run keepAlive
      results
    let s := sendBatches order (.modifyAckDeadline subscriptionName dl)
      (fun now => updateNextAcks (now + dl * 1000000000))
      (toModify order gracePeriod pseudoNow keepAlive) keepAlive results
    p.keepAlive = s.keepAlive ∧ p.calls = s.calls ∧
      (p.ending.Returns ↔ s.ending.Returns) := by
  intro p s
  have hnone : (toModify order gracePeriod pseudoNow keepAlive).keys = [] →
      s = ⟨keepAlive, [], results, .returned ()⟩ :=
    fun h => sendBatches_of_empty order _ _ h keepAlive results
  rcases modifyAckDeadlines_cases order subscriptionName dl gracePeriod pseudoNow keepAlive
    results with ⟨hempty, hp⟩ | ⟨-, htaken, hp⟩ | ⟨-, hp⟩
  · have hp : p = _ := hp
    have hs := hnone (List.eq_nil_iff_forall_not_mem.mpr fun ackID h => by
      have := ((mem_keys_toModify order _ _ _ _ _).mp h).mem_keys
      simp [hempty] at this)
    rw [hp, hs]
    simp [Ending.Returns]
  · have hp : p = _ := hp
    rw [hp, hnone htaken]
    simp [Ending.Returns]
  · have hp : p = _ := hp
    rw [hp]
    exact ⟨rfl, rfl, Ending.returns_map⟩

theorem modifyAckDeadlines_drains_iff (hids : Admitted keepAlive.keys) :
    Drains ((modifyAckDeadlines order subscriptionName dl gracePeriod pseudoNow).run keepAlive) ↔
      ∀ ackID, Due keepAlive gracePeriod pseudoNow ackID → Sendable ackID := by
  have hloop := sendBatches_drains_iff order
    (fun now => updateNextAcks (now + dl * 1000000000))
    (fun l => (rfl : (Request.modifyAckDeadline subscriptionName dl l).ackIDs = l))
    (toModify order gracePeriod pseudoNow keepAlive) keepAlive
    (admitted_toModify order gracePeriod pseudoNow keepAlive hids)
  have hrun := modifyAckDeadlines_loop order subscriptionName dl gracePeriod pseudoNow keepAlive
  rw [Drains.congr (fun results => (hrun results).2.1) (fun results => (hrun results).2.2),
    hloop]
  exact forall_congr' fun ackID => imp_congr_left (mem_keys_toModify order _ _ _ _ _)

/-- Each of the three send loops makes progress exactly when every id it has to send
fits into a request of its own. -/
theorem drains_iff_sendable (ids : AckIDSet) (hids : Admitted ids.keys)
    (hkeep : Admitted keepAlive.keys) :
    (Drains ((sendAcks order subscriptionName ids).run keepAlive) ↔
      ∀ ackID ∈ ids.keys, Sendable ackID) ∧
    (Drains ((sendNacks order subscriptionName ids).run keepAlive) ↔
      ∀ ackID ∈ ids.keys, Sendable ackID) ∧
    (Drains ((modifyAckDeadlines order subscriptionName dl gracePeriod pseudoNow).run
        keepAlive) ↔
      ∀ ackID, Due keepAlive gracePeriod pseudoNow ackID → Sendable ackID) :=
  ⟨sendBatches_drains_iff order _ (fun _ => rfl) ids keepAlive hids,
    sendBatches_drains_iff order _ (fun _ => rfl) ids keepAlive hids,
    modifyAckDeadlines_drains_iff order subscriptionName dl gracePeriod pseudoNow keepAlive hkeep⟩

end Modify

def oversizedId : AckID := idOfSize 524185

theorem not_sendable_oversizedId : ¬ Sendable oversizedId := by
  rw [sendable_iff, oversizedId, utf8ByteSize_idOfSize]
  omega

theorem admitted_oversizedId : Admitted [oversizedId] := by
  intro ackID hmem
  rw [List.mem_singleton.mp hmem, oversizedId, utf8ByteSize_idOfSize]
  decide

def oversized : AckIDSet := ⟨[oversizedId], List.nodup_singleton _⟩

def oversizedWatched : WatchDescrContainer := ⟨[(oversizedId, ⟨0⟩)], List.nodup_singleton _⟩

/-- With one id of 524185 bytes none of the loops ends, however often the server
answers `OK`, and the requests carry no id. -/
theorem not_drains :
    ¬ Drains ((sendAcks .newestFirst "s" oversized).run .empty) ∧
    ¬ Drains ((sendNacks .newestFirst "s" oversized).run .empty) ∧
    ¬ Drains ((modifyAckDeadlines .newestFirst "s" 10 5 0).run oversizedWatched) ∧
    ∀ n, ∀ c ∈ ((sendAcks .newestFirst "s" oversized).run .empty
      (List.replicate n (okAt 0))).calls, c.request.ackIDs = [] := by
  have hmem : oversizedId ∈ oversized.keys := List.mem_singleton_self _
  refine ⟨?_, ?_, ?_, ?_⟩
  · intro h
    exact not_sendable_oversizedId ((sendBatches_drains_iff .newestFirst _ (fun _ => rfl) oversized
      .empty admitted_oversizedId).mp h oversizedId hmem)
  · intro h
    exact not_sendable_oversizedId ((sendBatches_drains_iff .newestFirst _ (fun _ => rfl) oversized
      .empty admitted_oversizedId).mp h oversizedId hmem)
  · intro h
    exact not_sendable_oversizedId ((modifyAckDeadlines_drains_iff .newestFirst "s" 10 5 0
      oversizedWatched admitted_oversizedId).mp h oversizedId
      ⟨⟨0⟩, List.mem_singleton_self _, by decide⟩)
  · intro n c hc
    exact sendBatches_blocked .newestFirst (.acknowledge "s") _ (fun _ => rfl) oversized .empty _
      admitted_oversizedId rfl not_sendable_oversizedId c hc

def threeWatched : WatchDescrContainer :=
  ⟨[("aaaaaaaaaa", ⟨0⟩), ("bbbbbbbbbb", ⟨0⟩), ("cccccccccc", ⟨0⟩)], by decide⟩

theorem drains_iff_sendable_threeIds :
    Drains ((sendAcks .newestFirst "s" threeIds).run .empty) ∧
    Drains ((sendNacks .newestFirst "s" threeIds).run .empty) ∧
    Drains ((modifyAckDeadlines .newestFirst "s" 10 5 0).run threeWatched) := by
  have hacks := drains_iff_sendable .newestFirst "s" 10 5 0 .empty threeIds
    (by unfold Admitted; decide) (by simp [Admitted])
  have hwatched := drains_iff_sendable .newestFirst "s" 10 5 0 threeWatched threeIds
    (by unfold Admitted; decide) (by unfold Admitted; decide)
  have hsendable : ∀ ackID ∈ threeWatched.keys, Sendable ackID := by decide
  exact ⟨hacks.1.mpr (by decide), hacks.2.1.mpr (by decide),
    hwatched.2.2.mpr fun ackID hdue => hsendable ackID hdue.mem_keys⟩

end Pubsuber
