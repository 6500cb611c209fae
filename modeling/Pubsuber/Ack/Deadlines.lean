import Pubsuber.Ack.Draining
import Pubsuber.Retry.Trace

/-!
# What an extension writes

An extension writes through iterators that it has stored with the ids, batch by
batch and only once the request of the batch has succeeded. Every id is in one
batch, so what has been written stays as it is, however the loop ends.
-/

namespace Pubsuber

open HashContainer

theorem checkStatus_eq_ok {result : CallResult} {now : TimePoint} :
    checkStatus result = .ok now ↔ ∃ status, result = .ok (status, now) ∧ status.code = .ok := by
  rcases result with e | ⟨⟨code, message⟩, t⟩
  · simp [checkStatus]
  · cases code <;> simp [checkStatus]

/-- The iterator stored with an id points to the node of that id. -/
def Aligned (packs : AckIDPackSet) : Prop := ∀ pack ∈ packs.toList, pack.2 = pack.1

theorem aligned_giveMeTheKeys {σ : Type} (order : HashOrder) (ids : WatchDescrContainer)
    (pred : σ → AckWatchDescriptior → Bool × σ) (captured : σ) :
    Aligned (giveMeTheKeys order ids .empty pred captured).1 := by
  have hloop : ∀ (entries : List (AckID × AckWatchDescriptior)) (acc : AckIDPackSet × σ),
      Aligned acc.1 → Aligned (entries.foldl (fun acc pair =>
        let taken := pred acc.2 pair.2
        (if taken.1 then acc.1.emplace order (pair.1, pair.1) else acc.1, taken.2)) acc).1 := by
    intro entries
    induction entries with
    | nil => exact fun _ h => h
    | cons entry entries ih =>
      intro acc h
      apply ih
      dsimp only
      split_ifs
      · intro pack hpack
        rcases (Unordered.mem_emplace order).mp hpack with hpack | ⟨rfl, -⟩
        · exact h pack hpack
        · rfl
      · exact h
  apply hloop
  intro pack hpack
  simp at hpack

theorem Aligned.split {packs : AckIDPackSet} (h : Aligned packs) (order : HashOrder)
    (maxSize : ℕ) :
    Aligned (splitRequestIds order packs .empty maxSize).1 ∧
      Aligned (splitRequestIds order packs .empty maxSize).2 := by
  have hperm := splitRequestIds_perm order packs .empty maxSize
  constructor <;> intro pack hpack
  · exact h pack (hperm.subset (List.mem_append_left _ hpack))
  · exact h pack (hperm.subset (List.mem_append_right _ hpack))

theorem lookup_updateNextAcks (next : TimePoint) {toSend : AckIDPackSet}
    (h : Aligned toSend) (keepAlive : WatchDescrContainer) (ackID : AckID) :
    (updateNextAcks next toSend keepAlive).lookup ackID =
      if ackID ∈ toSend.keys then (keepAlive.lookup ackID).map fun _ => ⟨next⟩
      else keepAlive.lookup ackID := by
  unfold updateNextAcks Unordered.keys
  unfold Aligned at h
  generalize toSend.toList = packs at h ⊢
  induction packs generalizing keepAlive with
  | nil => simp
  | cons pack packs ih =>
    have hpack : pack.2 = pack.1 := h pack List.mem_cons_self
    rw [List.foldl_cons, ih _ fun p hp => h p (List.mem_cons_of_mem _ hp),
      Unordered.lookup_update keepAlive pack.2 ackID (fun d => d.updateNextAck next), hpack,
      List.map_cons]
    by_cases hid : ackID = pack.1
    · simp only [hid, if_true, List.mem_cons, true_or, Option.map_map]
      split_ifs <;> rfl
    · simp only [hid, if_false, List.mem_cons, false_or]

section Loop

variable (order : HashOrder) (subscriptionName : String) (dl : ℤ)

def extendLoop (ids : AckIDPackSet) (keepAlive : WatchDescrContainer)
    (results : List CallResult) : Progress Unit :=
  sendBatches order (.modifyAckDeadline subscriptionName dl)
    (fun now => updateNextAcks (now + dl * 1000000000)) ids keepAlive results

theorem extendLoop_unsent {ids : AckIDPackSet} (hids : Aligned ids)
    (keepAlive : WatchDescrContainer) (results : List CallResult) {ackID : AckID}
    (h : ∀ c ∈ (extendLoop order subscriptionName dl ids keepAlive results).calls,
      c.succeeded = true → ackID ∉ c.request.ackIDs) :
    (extendLoop order subscriptionName dl ids keepAlive results).keepAlive.lookup ackID =
      keepAlive.lookup ackID := by
  unfold extendLoop at h ⊢
  fun_induction sendBatches order (.modifyAckDeadline subscriptionName dl)
    (fun now => updateNextAcks (now + dl * 1000000000)) ids keepAlive results with
  | case5 ids keepAlive result results hne batch call now hok p ih =>
    obtain ⟨hrest, hbatch⟩ := hids.split order kMaxPayload
    have hnot : ackID ∉ batch.2.keys :=
      h call List.mem_cons_self (by simp [call, Call.succeeded, resultOk, hok, Except.toBool])
    rw [ih hrest fun c hc => h c (List.mem_cons_of_mem _ hc), lookup_updateNextAcks _ hbatch,
      if_neg hnot]
  | _ => rfl

/-- What later batches write does not touch the ids of an earlier one. -/
theorem extendLoop_batch {ids : AckIDPackSet} (hids : Aligned ids)
    (keepAlive : WatchDescrContainer) (hkeys : ∀ ackID ∈ ids.keys, ackID ∈ keepAlive.keys)
    (next : TimePoint) (results : List CallResult) {ackID : AckID}
    (hsent : ackID ∈ (splitRequestIds order ids .empty kMaxPayload).2.keys) :
    (extendLoop order subscriptionName dl (splitRequestIds order ids .empty kMaxPayload).1
      (updateNextAcks next (splitRequestIds order ids .empty kMaxPayload).2 keepAlive)
      results).keepAlive.lookup ackID = some ⟨next⟩ := by
  obtain ⟨hrest, hbatch⟩ := hids.split order kMaxPayload
  have hsplit := splitRequestIds_keys_perm order ids .empty kMaxPayload
  have hlater : ∀ c ∈ (extendLoop order subscriptionName dl
      (splitRequestIds order ids .empty kMaxPayload).1
      (updateNextAcks next (splitRequestIds order ids .empty kMaxPayload).2 keepAlive)
      results).calls, c.succeeded = true → ackID ∉ c.request.ackIDs := by
    intro c hc _ hin
    have hsub := (sendBatches_subperm order
      (fun now => updateNextAcks (now + dl * 1000000000))
      (fun l => (rfl : (Request.modifyAckDeadline subscriptionName dl l).ackIDs = l))
      (splitRequestIds order ids .empty kMaxPayload).1 _ results).subset
      (mem_callIds.mpr ⟨c, hc, hin⟩)
    exact List.disjoint_of_nodup_append (hsplit.nodup_iff.mpr ids.keys_nodup) hsub hsent
  have hthere := hkeys ackID (hsplit.subset (List.mem_append_right _ hsent))
  obtain ⟨descr, hdescr⟩ := Option.isSome_iff_exists.mp (Unordered.lookup_isSome.mpr hthere)
  rw [extendLoop_unsent order subscriptionName dl hrest _ results hlater,
    lookup_updateNextAcks _ hbatch, if_pos hsent, hdescr]
  rfl

theorem mem_keys_updateNextAcks {ids : AckIDPackSet} {keepAlive : WatchDescrContainer}
    (hkeys : ∀ ackID ∈ ids.keys, ackID ∈ keepAlive.keys) (next : TimePoint) :
    ∀ ackID ∈ (splitRequestIds order ids .empty kMaxPayload).1.keys,
      ackID ∈ (updateNextAcks next (splitRequestIds order ids .empty kMaxPayload).2
        keepAlive).keys := by
  intro ackID hmem
  rw [keys_updateNextAcks]
  have hsplit := splitRequestIds_keys_perm order ids .empty kMaxPayload
  exact hkeys ackID (hsplit.subset (List.mem_append_left _ hmem))

theorem extendLoop_sent {ids : AckIDPackSet} (hids : Aligned ids)
    (keepAlive : WatchDescrContainer) (hkeys : ∀ ackID ∈ ids.keys, ackID ∈ keepAlive.keys)
    (results : List CallResult) :
    ∀ (i : ℕ) (c : Call),
      (extendLoop order subscriptionName dl ids keepAlive results).calls[i]? = some c →
      c.succeeded = true → ∀ ackID ∈ c.request.ackIDs, ∃ status now,
        results[i]? = some (.ok (status, now)) ∧ status.code = .ok ∧
          (extendLoop order subscriptionName dl ids keepAlive results).keepAlive.lookup
            ackID = some ⟨now + dl * 1000000000⟩ := by
  unfold extendLoop
  fun_induction sendBatches order (.modifyAckDeadline subscriptionName dl)
    (fun now => updateNextAcks (now + dl * 1000000000)) ids keepAlive results with
  | case1 => simp
  | case2 ids keepAlive hne batch =>
    intro i c hc hok
    rw [List.getElem?_singleton] at hc
    split_ifs at hc
    rw [← Option.some.inj hc] at hok
    contradiction
  | case3 => simp
  | case4 ids keepAlive result results hne batch call e he =>
    intro i c hc hok
    cases i with
    | zero =>
      rw [← Option.some.inj hc] at hok
      simp [call, Call.succeeded, resultOk, he, Except.toBool] at hok
    | succ i => simp at hc
  | case5 ids keepAlive result results hne batch call now hnow p ih =>
    intro i c hc hok ackID hmem
    cases i with
    | zero =>
      rw [← Option.some.inj hc] at hmem
      obtain ⟨status, rfl, hstatus⟩ := checkStatus_eq_ok.mp hnow
      exact ⟨status, now, rfl, hstatus,
        extendLoop_batch order subscriptionName dl hids keepAlive hkeys _ results hmem⟩
    | succ i =>
      exact ih (hids.split order kMaxPayload).1 (mem_keys_updateNextAcks order hkeys _) i c
        (by simpa using hc) hok ackID hmem

end Loop

theorem lt_of_lt_tdiv {x g : ℤ} (h : g * 1000 < x.tdiv 1000000) : g * 1000000000 < x := by
  have hsign : Int.sign 1000000 = 1 := rfl
  rw [Int.tdiv_eq_ediv, hsign] at h
  split_ifs at h <;> omega

theorem AckWatchDescriptior.lt_nextAck {descr : AckWatchDescriptior} {now : TimePoint}
    {gracePeriod : ℤ} (h : gracePeriod * 1000 < descr.extendIn now) :
    now + gracePeriod * 1000000000 < descr.nextAck := by
  have := lt_of_lt_tdiv h
  linarith

section Modify

variable (order : HashOrder) (subscriptionName : String) (dl gracePeriod : ℤ)
variable (pseudoNow : TimePoint) (keepAlive : WatchDescrContainer) (results : List CallResult)

def modified : Progress ℤ :=
  (modifyAckDeadlines order subscriptionName dl gracePeriod pseudoNow).run keepAlive results

theorem aligned_toModify : Aligned (toModify order gracePeriod pseudoNow keepAlive) :=
  aligned_giveMeTheKeys order keepAlive _ _

theorem modified_unsent {ackID : AckID}
    (h : ∀ c ∈ (modified order subscriptionName dl gracePeriod pseudoNow keepAlive
      results).calls, c.succeeded = true → ackID ∉ c.request.ackIDs) :
    (modified order subscriptionName dl gracePeriod pseudoNow keepAlive
      results).keepAlive.lookup ackID = keepAlive.lookup ackID := by
  obtain ⟨hkeep, hcalls, -⟩ := modifyAckDeadlines_loop order subscriptionName dl gracePeriod
    pseudoNow keepAlive results
  unfold modified at h ⊢
  rw [hcalls] at h
  rw [hkeep]
  exact extendLoop_unsent order subscriptionName dl
    (aligned_toModify order gracePeriod pseudoNow keepAlive) keepAlive results h

theorem modified_sent {i : ℕ} {c : Call}
    (hc : (modified order subscriptionName dl gracePeriod pseudoNow keepAlive
      results).calls[i]? = some c) (hok : c.succeeded = true) {ackID : AckID}
    (hmem : ackID ∈ c.request.ackIDs) :
    ∃ status now, results[i]? = some (.ok (status, now)) ∧ status.code = .ok ∧
      (modified order subscriptionName dl gracePeriod pseudoNow keepAlive
        results).keepAlive.lookup ackID = some ⟨now + dl * 1000000000⟩ := by
  obtain ⟨hkeep, hcalls, -⟩ := modifyAckDeadlines_loop order subscriptionName dl gracePeriod
    pseudoNow keepAlive results
  unfold modified at hc ⊢
  rw [hcalls] at hc
  rw [hkeep]
  refine extendLoop_sent order subscriptionName dl
    (aligned_toModify order gracePeriod pseudoNow keepAlive) keepAlive ?_ results i c hc hok
    ackID hmem
  intro k hk
  exact ((mem_keys_toModify order _ _ _ _ _).mp hk).mem_keys

/-- An id that was due when `ModifyAckDeadlines` returns was sent, and has a deadline that
counts from the reading of its own call. -/
theorem modified_due {sleep : ℤ}
    (h : (modified order subscriptionName dl gracePeriod pseudoNow keepAlive
      results).ending = .returned sleep) {ackID : AckID}
    (hdue : Due keepAlive gracePeriod pseudoNow ackID) :
    ∃ status now, .ok (status, now) ∈ results ∧ status.code = .ok ∧
      (modified order subscriptionName dl gracePeriod pseudoNow keepAlive
        results).keepAlive.lookup ackID = some ⟨now + dl * 1000000000⟩ := by
  obtain ⟨-, -, -, -, hreturned⟩ := modifyAckDeadlines_spec order subscriptionName dl
    gracePeriod pseudoNow keepAlive results
  obtain ⟨hok, hsent⟩ := hreturned sleep h
  obtain ⟨c, hc, hmem⟩ := mem_callIds.mp (hsent ackID hdue)
  obtain ⟨i, hi⟩ := List.getElem?_of_mem hc
  obtain ⟨status, now, hres, hstatus, hlookup⟩ := modified_sent order subscriptionName dl
    gracePeriod pseudoNow keepAlive results hi (hok c hc) hmem
  exact ⟨status, now, List.mem_of_getElem? hres, hstatus, hlookup⟩

theorem modified_not_due {ackID : AckID} (hdue : ¬ Due keepAlive gracePeriod pseudoNow ackID) :
    (modified order subscriptionName dl gracePeriod pseudoNow keepAlive
      results).keepAlive.lookup ackID = keepAlive.lookup ackID := by
  obtain ⟨-, -, -, hids, -⟩ := modifyAckDeadlines_spec order subscriptionName dl gracePeriod
    pseudoNow keepAlive results
  apply modified_unsent
  intro c hc _ hmem
  exact hdue (hids ackID (mem_callIds.mpr ⟨c, hc, hmem⟩))

/-- After a return every deadline lies beyond the grace period. -/
theorem modified_beyond_grace (hdl : gracePeriod < dl)
    (hlater : ∀ status now, .ok (status, now) ∈ results → pseudoNow ≤ now) {sleep : ℤ}
    (h : (modified order subscriptionName dl gracePeriod pseudoNow keepAlive
      results).ending = .returned sleep) {ackID : AckID} {descr : AckWatchDescriptior}
    (hdescr : (modified order subscriptionName dl gracePeriod pseudoNow keepAlive
      results).keepAlive.lookup ackID = some descr) :
    pseudoNow + gracePeriod * 1000000000 < descr.nextAck := by
  by_cases hdue : Due keepAlive gracePeriod pseudoNow ackID
  · obtain ⟨status, now, hmem, -, hlookup⟩ := modified_due order subscriptionName dl gracePeriod
      pseudoNow keepAlive results h hdue
    rw [hlookup] at hdescr
    rw [← Option.some.inj hdescr]
    have := hlater status now hmem
    dsimp only
    linarith
  · rw [modified_not_due order subscriptionName dl gracePeriod pseudoNow keepAlive results
      hdue, Unordered.lookup_eq_some] at hdescr
    apply AckWatchDescriptior.lt_nextAck
    by_contra hle
    exact hdue ⟨descr, hdescr, not_lt.mp hle⟩

end Modify

/-! ## Calls with retries -/

/-- What happens in one `make_call`. -/
structure CallScript where
  start : TimePoint
  attempts : List Attempt

def CallScript.finish (script : CallScript) : TimePoint :=
  script.attempts.foldl (fun _ a => a.next) script.start

def ClockedCalls : TimePoint → List CallScript → Prop
  | _, [] => True
  | now, script :: scripts =>
    now ≤ script.start ∧ Clocked script.start script.attempts ∧
      ClockedCalls script.finish scripts

def Ending.callResult? : Ending (Status × TimePoint) → Option CallResult
  | .returned r => some (.ok r)
  | .threw e => some (.error e)
  | .terminated => none
  | .calling => none

theorem Clocked.start_le_finish {start : TimePoint} {attempts : List Attempt}
    (h : Clocked start attempts) : start ≤ attempts.foldl (fun _ a => a.next) start := by
  induction attempts generalizing start with
  | nil => exact le_rfl
  | cons a as ih =>
    obtain ⟨hcheck, hnext, hrest⟩ := h
    exact hcheck.trans (hnext.trans (ih hrest))

theorem ClockedCalls.le_start {now : TimePoint} {scripts : List CallScript}
    (h : ClockedCalls now scripts) {script : CallScript} (hmem : script ∈ scripts) :
    now ≤ script.start ∧ Clocked script.start script.attempts := by
  induction scripts generalizing now with
  | nil => simp at hmem
  | cons head scripts ih =>
    obtain ⟨hstart, hclock, hrest⟩ := h
    rcases List.mem_cons.mp hmem with rfl | hmem
    · exact ⟨hstart, hclock⟩
    · obtain ⟨hle, hclock'⟩ := ih hrest hmem
      exact ⟨hstart.trans (hclock.start_le_finish.trans hle), hclock'⟩

section Retries

variable (name : String) (countPolicy : RetryCountPolicy) (timePolicy : MaxRetryTimePolicy)
  (backoffPolicy : ExponentialBackoffPolicy)

/-- The results of calls one after the other, up to the first that does not come back. -/
def resultsOf : List CallScript → List CallResult
  | [] => []
  | script :: scripts =>
    match (makeCall name countPolicy timePolicy script.start backoffPolicy
      script.attempts).ending.callResult? with
    | some result => result :: resultsOf scripts
    | none => []

theorem getElem?_resultsOf {scripts : List CallScript} {i : ℕ} {result : CallResult}
    (h : (resultsOf name countPolicy timePolicy backoffPolicy scripts)[i]? = some result) :
    ∃ script, scripts[i]? = some script ∧
      (makeCall name countPolicy timePolicy script.start backoffPolicy
        script.attempts).ending.callResult? = some result := by
  induction scripts generalizing i with
  | nil => simp [resultsOf] at h
  | cons script scripts ih =>
    unfold resultsOf at h
    cases hresult : (makeCall name countPolicy timePolicy script.start backoffPolicy
      script.attempts).ending.callResult? with
    | none =>
      rw [hresult] at h
      simp at h
    | some r =>
      rw [hresult] at h
      cases i with
      | zero =>
        refine ⟨script, rfl, ?_⟩
        rw [hresult]
        exact h
      | succ i =>
        rw [List.getElem?_cons_succ] at h ⊢
        exact ih h

theorem last_of_callResult {script : CallScript} {status : Status} {now : TimePoint}
    (h : (makeCall name countPolicy timePolicy script.start backoffPolicy
      script.attempts).ending.callResult? = some (.ok (status, now))) :
    ∃ before a, issued countPolicy timePolicy script.start script.attempts = before ++ [a] ∧
      a.status = status ∧ a.next = now := by
  cases hending : (makeCall name countPolicy timePolicy script.start backoffPolicy
    script.attempts).ending with
  | returned r =>
    rw [hending] at h
    obtain ⟨before, a, hissued, -, -, hr⟩ := returned_makeCall _ _ _ _ _ _ hending
    obtain ⟨rfl, rfl⟩ : status = a.status ∧ now = a.next := by
      simpa [Ending.callResult?, hr, eq_comm] using h
    exact ⟨before, a, hissued, rfl, rfl⟩
  | threw e => simp [hending, Ending.callResult?] at h
  | terminated => simp [hending, Ending.callResult?] at h
  | calling => simp [hending, Ending.callResult?] at h

/-- What an extension with retries leaves behind, wherever it stops. -/
structure ExactExtension (subscriptionName : String) (dl gracePeriod : ℤ)
    (pseudoNow : TimePoint) (keepAlive : WatchDescrContainer) (scripts : List CallScript)
    (p : Progress ℤ) : Prop where
  keys : p.keepAlive.keys = keepAlive.keys
  requests : ∀ c ∈ p.calls, ∃ l, c.request = .modifyAckDeadline subscriptionName dl l
  /-- An id that was extended counts from the start of the attempt that succeeded, so a
  server that handles this attempt later has a later deadline. -/
  sent : ∀ (i : ℕ) (c : Call), p.calls[i]? = some c → c.succeeded = true →
    ∀ ackID ∈ c.request.ackIDs, ∃ script before a descr, scripts[i]? = some script ∧
      issued countPolicy timePolicy script.start script.attempts = before ++ [a] ∧
      a.status.code = .ok ∧ p.keepAlive.lookup ackID = some descr ∧
      descr.nextAck = a.next + dl * 1000000000 ∧
      ∀ handled ≥ a.next, descr.nextAck ≤ handled + dl * 1000000000
  unsent : ∀ ackID, (∀ c ∈ p.calls, c.succeeded = true → ackID ∉ c.request.ackIDs) →
    p.keepAlive.lookup ackID = keepAlive.lookup ackID
  kept : ∀ sleep, p.ending = .returned sleep → ∀ ackID descr,
    p.keepAlive.lookup ackID = some descr →
      pseudoNow + gracePeriod * 1000000000 < descr.nextAck

theorem pseudoNow_le_of_result {pseudoNow : TimePoint} {scripts : List CallScript}
    (hclock : ClockedCalls pseudoNow scripts) {status : Status} {now : TimePoint}
    (h : .ok (status, now) ∈ resultsOf name countPolicy timePolicy backoffPolicy scripts) :
    pseudoNow ≤ now := by
  obtain ⟨i, hi⟩ := List.getElem?_of_mem h
  obtain ⟨script, hscript, hresult⟩ := getElem?_resultsOf _ _ _ _ hi
  obtain ⟨hstart, hclocked⟩ := hclock.le_start (List.mem_of_getElem? hscript)
  obtain ⟨before, a, hissued, -, rfl⟩ := last_of_callResult _ _ _ _ hresult
  have hmem : a ∈ script.attempts :=
    (Retry.made_initial _ _ _ _).subset (show a ∈ issued _ _ _ _ by rw [hissued]; simp)
  exact hstart.trans (hclocked.le_next hmem)

/-- Extending deadlines is exact for all outcomes of all its calls. -/
theorem modifyAckDeadlines_exact (order : HashOrder) (subscriptionName : String) {dl : ℤ}
    (hdl : 10 ≤ dl) (pseudoNow : TimePoint) (keepAlive : WatchDescrContainer)
    (scripts : List CallScript) (hclock : ClockedCalls pseudoNow scripts) :
    ExactExtension countPolicy timePolicy subscriptionName dl 5 pseudoNow keepAlive scripts
      ((modifyAckDeadlines order subscriptionName dl 5 pseudoNow).run keepAlive
        (resultsOf name countPolicy timePolicy backoffPolicy scripts)) := by
  obtain ⟨hkeys, hrequests, -⟩ := modifyAckDeadlines_spec order subscriptionName dl 5 pseudoNow
    keepAlive (resultsOf name countPolicy timePolicy backoffPolicy scripts)
  constructor
  · exact hkeys
  · exact hrequests
  · intro i c hc hok ackID hmem
    obtain ⟨status, now, hresult, hstatus, hlookup⟩ := modified_sent order subscriptionName dl 5
      pseudoNow keepAlive _ hc hok hmem
    obtain ⟨script, hscript, hcall⟩ := getElem?_resultsOf _ _ _ _ hresult
    obtain ⟨before, a, hissued, rfl, rfl⟩ := last_of_callResult _ _ _ _ hcall
    refine ⟨script, before, a, _, hscript, hissued, hstatus, hlookup, rfl, ?_⟩
    intro handled hhandled
    dsimp only
    linarith
  · intro ackID h
    exact modified_unsent order subscriptionName dl 5 pseudoNow keepAlive _ h
  · intro sleep hsleep ackID descr hdescr
    refine modified_beyond_grace order subscriptionName dl 5 pseudoNow keepAlive _ (by omega)
      ?_ hsleep hdescr
    intro status now hmem
    exact pseudoNow_le_of_result _ _ _ _ hclock hmem

end Retries

/-- One of two ids is due, and its call succeeds at the second attempt. -/
theorem modifyAckDeadlines_exact_oneRetry :
    ExactExtension {} {} "s" 10 5 0 ⟨[("a", ⟨1000000000⟩), ("b", ⟨600000000000⟩)], by decide⟩
      [⟨1, [attemptAt 2 .unavailable, attemptAt 300000000 .ok]⟩]
      ((modifyAckDeadlines .newestFirst "s" 10 5 0).run
        ⟨[("a", ⟨1000000000⟩), ("b", ⟨600000000000⟩)], by decide⟩
        (resultsOf "ModifyAckDeadline" {} {} {}
          [⟨1, [attemptAt 2 .unavailable, attemptAt 300000000 .ok]⟩])) :=
  modifyAckDeadlines_exact "ModifyAckDeadline" {} {} {} .newestFirst "s" (by decide) 0 _ _
    (by simp [ClockedCalls, Clocked, attemptAt])

end Pubsuber
