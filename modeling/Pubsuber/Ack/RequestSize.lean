import Pubsuber.Library.WireSize
import Pubsuber.Ack.Draining

/-!
# The size of the requests on the wire

`split_request_ids` allows 100 bytes for everything but the ids and three bytes
for each id besides its own. The subscription name alone may take more, and the
length of an id of 16384 bytes or more takes three bytes instead of two.
-/

namespace Pubsuber

open HashContainer

/-- The size of a serialized `AcknowledgeRequest` or `ModifyAckDeadlineRequest`. -/
def Request.serializedSize : Request → ℕ
  | .acknowledge subscription ackIDs =>
    WireSize.stringField subscription + WireSize.repeatedStringField ackIDs
  | .modifyAckDeadline subscription ackDeadlineSeconds ackIDs =>
    WireSize.stringField subscription + WireSize.repeatedStringField ackIDs +
      WireSize.int32Field ackDeadlineSeconds

def RespectsLimit (calls : List Call) : Prop :=
  ∀ c ∈ calls, c.request.ackIDs ≠ [] → c.request.serializedSize ≤ kMaxPayload

/-! ## Ids -/

def longIds (ackIDs : List AckID) : ℕ := ackIDs.countP fun ackID => 16384 ≤ ackID.utf8ByteSize

theorem stringField_le_idCost {ackID : AckID} (h : ackID.utf8ByteSize < 2097152) :
    WireSize.stringField ackID ≤
      idCost ackID + if 16384 ≤ ackID.utf8ByteSize then 1 else 0 := by
  unfold WireSize.stringField idCost kOverheadPerID
  split_ifs with hlong
  · rw [WireSize.varint_eq (m := 2) (by omega) (by omega)]
    omega
  · have hshort := WireSize.varint_mono (show ackID.utf8ByteSize ≤ 16383 by omega)
    rw [WireSize.varint_eq (n := 16383) (m := 1) (by omega) (by omega)] at hshort
    omega

theorem repeatedStringField_le (ackIDs : List AckID)
    (h : ∀ ackID ∈ ackIDs, ackID.utf8ByteSize < 2097152) :
    WireSize.repeatedStringField ackIDs ≤ Greedy.cost idCost ackIDs + longIds ackIDs := by
  induction ackIDs with
  | nil => simp
  | cons ackID ackIDs ih =>
    have hfirst := stringField_le_idCost (h ackID List.mem_cons_self)
    have hrest := ih fun k hk => h k (List.mem_cons_of_mem _ hk)
    unfold longIds at hrest ⊢
    rw [WireSize.repeatedStringField_cons, Greedy.cost_cons, List.countP_cons]
    split_ifs at hfirst ⊢ with hlong hlong' <;> simp_all <;> omega

/-- Long ids use up the budget. -/
theorem longIds_mul_le (ackIDs : List AckID) :
    16387 * longIds ackIDs ≤ Greedy.cost idCost ackIDs := by
  induction ackIDs with
  | nil => simp [longIds]
  | cons ackID ackIDs ih =>
    have hid : idCost ackID = 3 + ackID.utf8ByteSize := rfl
    unfold longIds at ih ⊢
    rw [Greedy.cost_cons, List.countP_cons]
    split_ifs with hlong
    · have : 16384 ≤ ackID.utf8ByteSize := by simpa using hlong
      omega
    · omega

theorem size_lt_of_mem {ackIDs : List AckID} (hcost : requestCost ackIDs < kMaxPayload)
    {ackID : AckID} (h : ackID ∈ ackIDs) : ackID.utf8ByteSize < 2097152 := by
  have hle : idCost ackID ≤ Greedy.cost idCost ackIDs :=
    List.single_le_sum (by simp) _ (List.mem_map_of_mem h)
  have hid : idCost ackID = 3 + ackID.utf8ByteSize := rfl
  unfold requestCost kReqFixedOverhead kMaxPayload at hcost
  omega

theorem repeatedStringField_of_requestCost {ackIDs : List AckID}
    (hcost : requestCost ackIDs < kMaxPayload) :
    WireSize.repeatedStringField ackIDs ≤ 524218 := by
  have hsize := repeatedStringField_le ackIDs fun _ => size_lt_of_mem hcost
  have hlong := longIds_mul_le ackIDs
  unfold requestCost kReqFixedOverhead kMaxPayload at hcost
  omega

/-! ## Batches -/

section Batches

variable {α : Type} {key : α → AckID} (order : HashOrder) (request : List AckID → Request)
variable (callback : TimePoint → Unordered key → WatchDescrContainer → WatchDescrContainer)

theorem sendBatches_batches (ids : Unordered key) (keepAlive : WatchDescrContainer)
    (results : List CallResult) :
    ∀ c ∈ (sendBatches order request callback ids keepAlive results).calls,
      ∃ remainder : Unordered key, remainder.keys ⊆ ids.keys ∧ c.request =
        request (splitRequestIds order remainder .empty kMaxPayload).2.keys := by
  fun_induction sendBatches order request callback ids keepAlive results with
  | case1 => simp
  | case2 ids keepAlive hne batch =>
    intro c hc
    obtain rfl := List.mem_singleton.mp hc
    exact ⟨ids, fun _ h => h, rfl⟩
  | case3 => simp
  | case4 ids keepAlive result results hne batch call e he =>
    intro c hc
    obtain rfl := List.mem_singleton.mp hc
    exact ⟨ids, fun _ h => h, rfl⟩
  | case5 ids keepAlive result results hne batch call now hok p ih =>
    intro c hc
    rcases List.mem_cons.mp hc with rfl | hc
    · exact ⟨ids, fun _ h => h, rfl⟩
    · obtain ⟨remainder, hsub, hreq⟩ := ih c hc
      exact ⟨remainder, fun _ h => keys_rest_subset order ids (hsub h), hreq⟩

variable {request}

theorem sendBatches_ids_le (hreq : ∀ l, (request l).ackIDs = l) (ids : Unordered key)
    (keepAlive : WatchDescrContainer) (results : List CallResult) (hids : Admitted ids.keys)
    {c : Call} (hc : c ∈ (sendBatches order request callback ids keepAlive results).calls)
    (hne : c.request.ackIDs ≠ []) :
    WireSize.repeatedStringField c.request.ackIDs ≤ 524218 := by
  obtain ⟨remainder, hsub, heq⟩ := sendBatches_batches order request callback ids keepAlive
    results c hc
  rw [heq, hreq] at hne ⊢
  apply repeatedStringField_of_requestCost
  apply requestCost_batch_lt order kMaxPayload_le remainder .empty (hids.of_subset hsub)
  intro hnil
  apply hne
  unfold Unordered.keys
  rw [hnil, List.map_nil]

end Batches

/-! ## Batches that nearly fill the budget -/

section Whole

variable {α : Type} {key : α → AckID} (request : List AckID → Request)
variable (callback : TimePoint → Unordered key → WatchDescrContainer → WatchDescrContainer)

theorem sendBatches_whole {ids : Unordered key} {ackIDs : List AckID}
    (hids : ids.keys.Perm ackIDs) (hne : ackIDs ≠ []) (hcost : requestCost ackIDs < kMaxPayload)
    (keepAlive : WatchDescrContainer) :
    ∃ l, l.Perm ackIDs ∧
      ∃ c ∈ (sendBatches .newestFirst request callback ids keepAlive []).calls,
        c.request = request l := by
  have hkeys : (ids.toList.map key).Perm ackIDs := hids
  have hadmitted : Admitted ids.keys := by
    intro ackID hmem
    have := size_lt_of_mem hcost (hids.mem_iff.mp hmem)
    unfold kMaxSendRecvBytes
    omega
  have hfits : kReqFixedOverhead + Greedy.cost (fun x => idCost (key x)) ids.toList <
      kMaxPayload := by
    rw [cost_map_key, Greedy.cost_perm idCost hkeys]
    exact hcost
  have hbatch := splitRequestIds_snd_perm .newestFirst kMaxPayload_le ids .empty hadmitted
  rw [Greedy.taken_eq_self _ _ _ _ hfits] at hbatch
  have hnonempty : ids.keys ≠ [] := by
    intro h
    rw [h] at hids
    exact hne hids.nil_eq.symm
  refine ⟨(splitRequestIds .newestFirst ids .empty kMaxPayload).2.keys,
    (hbatch.map key).trans hids, ⟨request _, none⟩, ?_, rfl⟩
  simp [sendBatches, hnonempty, populateAckIds]

end Whole

theorem idOfSize_injective : Function.Injective idOfSize := by
  intro m n h
  rw [← utf8ByteSize_idOfSize m, h, utf8ByteSize_idOfSize]

theorem cost_idsOfSizes (sizes : List ℕ) :
    Greedy.cost idCost (sizes.map idOfSize) = (sizes.map (3 + ·)).sum := by
  have h : idCost ∘ idOfSize = (3 + ·) := by
    funext n
    simp [idCost, kOverheadPerID]
  unfold Greedy.cost
  rw [List.map_map, h]

theorem wire_idsOfSizes {sizes : List ℕ} {m : ℕ}
    (h : ∀ n ∈ sizes, 128 ^ m ≤ n ∧ n < 128 ^ (m + 1)) :
    WireSize.repeatedStringField (sizes.map idOfSize) = (sizes.map (2 + m + ·)).sum := by
  have hfield : ∀ n ∈ sizes, (WireSize.stringField ∘ idOfSize) n = 2 + m + n := by
    intro n hn
    rw [Function.comp_apply, WireSize.stringField, utf8ByteSize_idOfSize,
      WireSize.varint_eq (h n hn).1 (h n hn).2]
    omega
  unfold WireSize.repeatedStringField
  rw [List.map_map, List.map_congr_left hfield]

/-- 31 sizes of long ids that leave nothing of the budget. -/
def worstSizes : List ℕ := List.range' 16384 30 ++ [32139]

theorem nodup_worstIds : (worstSizes.map idOfSize).Nodup := by
  apply List.Nodup.map idOfSize_injective
  decide

theorem requestCost_worstIds : requestCost (worstSizes.map idOfSize) = 524287 := by
  have hsum : (worstSizes.map (3 + ·)).sum = 524187 := by decide
  rw [requestCost, cost_idsOfSizes, hsum, kReqFixedOverhead]

theorem wire_worstIds : WireSize.repeatedStringField (worstSizes.map idOfSize) = 524218 := by
  rw [wire_idsOfSizes (m := 2) (by decide)]
  decide

theorem admitted_worstIds : Admitted (worstSizes.map idOfSize) := by
  intro ackID hmem
  obtain ⟨n, hn, rfl⟩ := List.mem_map.mp hmem
  have hbound : ∀ n ∈ worstSizes, n ≤ kMaxSendRecvBytes := by decide
  rw [utf8ByteSize_idOfSize]
  exact hbound n hn

def worstIds : AckIDSet := ⟨worstSizes.map idOfSize, by simpa using nodup_worstIds⟩

def worstWatched : WatchDescrContainer :=
  ⟨worstSizes.map fun n => (idOfSize n, ⟨0⟩), by
    simpa [Function.comp_def] using nodup_worstIds⟩

/-! ## The limit -/

section Limit

variable {α : Type} {key : α → AckID} (order : HashOrder) {request : List AckID → Request}
variable (callback : TimePoint → Unordered key → WatchDescrContainer → WatchDescrContainer)

theorem respectsLimit_of_le (hreq : ∀ l, (request l).ackIDs = l) {fixed : ℕ}
    (hsize : ∀ l, (request l).serializedSize = fixed + WireSize.repeatedStringField l)
    (hfixed : fixed ≤ 70) (ids : Unordered key) (keepAlive : WatchDescrContainer)
    (results : List CallResult) (hids : Admitted ids.keys) :
    RespectsLimit (sendBatches order request callback ids keepAlive results).calls := by
  intro c hc hne
  obtain ⟨l, hl⟩ := sendBatches_requests order request callback ids keepAlive results c hc
  have hids := sendBatches_ids_le order callback hreq ids keepAlive results hids hc hne
  rw [hl, hreq] at hids
  rw [hl, hsize]
  unfold kMaxPayload
  omega

/-- The worst ids leave 70 bytes for everything else. -/
theorem le_of_respectsLimit (hreq : ∀ l, (request l).ackIDs = l) {fixed : ℕ}
    (hsize : ∀ l, (request l).serializedSize = fixed + WireSize.repeatedStringField l)
    {ids : Unordered key} (hids : ids.keys.Perm (worstSizes.map idOfSize))
    {keepAlive : WatchDescrContainer}
    (h : RespectsLimit (sendBatches .newestFirst request callback ids keepAlive []).calls) :
    fixed ≤ 70 := by
  have hne : worstSizes.map idOfSize ≠ [] := mt List.map_eq_nil_iff.mp (by decide)
  have hcost : requestCost (worstSizes.map idOfSize) < kMaxPayload := by
    rw [requestCost_worstIds]
    decide
  obtain ⟨l, hl, c, hc, hcl⟩ := sendBatches_whole request callback hids hne hcost keepAlive
  have hids : c.request.ackIDs ≠ [] := by
    rw [hcl, hreq]
    intro h
    rw [h] at hl
    exact hne hl.nil_eq.symm
  have hlimit := h c hc hids
  rw [hcl, hsize, WireSize.repeatedStringField_perm hl, wire_worstIds] at hlimit
  unfold kMaxPayload at hlimit
  omega

end Limit

theorem fixed_le_iff (subscriptionName : String) (n : ℕ) :
    WireSize.stringField subscriptionName + n ≤ 70 ↔ subscriptionName.utf8ByteSize + n ≤ 68 := by
  have h := WireSize.stringField_le_iff (s := subscriptionName) (n := 70 - n) (by omega)
  have hpos : 0 < WireSize.stringField subscriptionName := by
    unfold WireSize.stringField
    omega
  omega

theorem keys_worstIds : worstIds.keys.Perm (worstSizes.map idOfSize) := by
  simp [Unordered.keys, worstIds]

theorem mem_keys_worstWatched {ackID : AckID} :
    ackID ∈ worstWatched.keys ↔ ackID ∈ worstSizes.map idOfSize := by
  simp [Unordered.keys, worstWatched]

theorem admitted_worstWatched : Admitted worstWatched.keys :=
  admitted_worstIds.of_subset fun _ h => mem_keys_worstWatched.mp h

theorem keys_toModify_worstWatched :
    (toModify .newestFirst 5 0 worstWatched).keys.Perm (worstSizes.map idOfSize) := by
  apply (List.perm_ext_iff_of_nodup (Unordered.keys_nodup _) nodup_worstIds).mpr
  intro ackID
  unfold toModify
  rw [mem_keys_toModify]
  constructor
  · intro h
    exact mem_keys_worstWatched.mp h.mem_keys
  · intro h
    obtain ⟨n, hn, rfl⟩ := List.mem_map.mp h
    exact ⟨⟨0⟩, List.mem_map_of_mem hn, by decide⟩

theorem sendBatches_respectsLimit_iff {request : List AckID → Request}
    (hreq : ∀ l, (request l).ackIDs = l) {subscriptionName : String}
    (hsize : ∀ l, (request l).serializedSize =
      WireSize.stringField subscriptionName + WireSize.repeatedStringField l) :
    (∀ order (ids : AckIDSet) keepAlive results, Admitted ids.keys →
      RespectsLimit (sendBatches order request (fun _ _ keepAlive => keepAlive) ids keepAlive
        results).calls) ↔ subscriptionName.utf8ByteSize ≤ 68 := by
  have hfixed := fixed_le_iff subscriptionName 0
  rw [Nat.add_zero, Nat.add_zero] at hfixed
  rw [← hfixed]
  constructor
  · intro h
    exact le_of_respectsLimit (fun _ _ keepAlive => keepAlive) hreq hsize keys_worstIds
      (h .newestFirst worstIds .empty [] (admitted_worstIds.of_subset keys_worstIds.subset))
  · intro h order ids keepAlive results hids
    exact respectsLimit_of_le order _ hreq hsize h ids keepAlive results hids

theorem modifyAckDeadlines_respectsLimit_iff (subscriptionName : String) (dl : ℤ) :
    (∀ order keepAlive gracePeriod pseudoNow results, Admitted keepAlive.keys →
      RespectsLimit ((modifyAckDeadlines order subscriptionName dl gracePeriod pseudoNow).run
        keepAlive results).calls) ↔
      subscriptionName.utf8ByteSize + WireSize.int32Field dl ≤ 68 := by
  have hsize : ∀ l, (Request.modifyAckDeadline subscriptionName dl l).serializedSize =
      WireSize.stringField subscriptionName + WireSize.int32Field dl +
        WireSize.repeatedStringField l := by
    intro l
    simp only [Request.serializedSize]
    omega
  rw [← fixed_le_iff]
  constructor
  · intro h
    have hworst := h .newestFirst worstWatched 5 0 [] admitted_worstWatched
    rw [(modifyAckDeadlines_loop .newestFirst subscriptionName dl 5 0 worstWatched
      []).2.1] at hworst
    exact le_of_respectsLimit _ (fun _ => rfl) hsize keys_toModify_worstWatched hworst
  · intro h order keepAlive gracePeriod pseudoNow results hids
    rw [(modifyAckDeadlines_loop order subscriptionName dl gracePeriod pseudoNow keepAlive
      results).2.1]
    exact respectsLimit_of_le order _ (fun _ => rfl) hsize h _ keepAlive results
      (admitted_toModify order gracePeriod pseudoNow keepAlive hids)

/-- The requests of each loop are within the limit, whatever the ids are, exactly when
the name and the deadline leave room for what the ids may take more than allowed for. -/
theorem respectsLimit_iff (subscriptionName : String) :
    ((∀ order (ids : AckIDSet) keepAlive results, Admitted ids.keys →
      RespectsLimit ((sendAcks order subscriptionName ids).run keepAlive results).calls) ↔
        subscriptionName.utf8ByteSize ≤ 68) ∧
    ((∀ order (ids : AckIDSet) keepAlive results, Admitted ids.keys →
      RespectsLimit ((sendNacks order subscriptionName ids).run keepAlive results).calls) ↔
        subscriptionName.utf8ByteSize ≤ 68) ∧
    ∀ dl, (∀ order keepAlive gracePeriod pseudoNow results, Admitted keepAlive.keys →
      RespectsLimit ((modifyAckDeadlines order subscriptionName dl gracePeriod pseudoNow).run
        keepAlive results).calls) ↔
      subscriptionName.utf8ByteSize + WireSize.int32Field dl ≤ 68 :=
  ⟨sendBatches_respectsLimit_iff (fun _ => rfl) (fun _ => rfl),
    sendBatches_respectsLimit_iff (fun _ => rfl) (fun _ => rfl),
    modifyAckDeadlines_respectsLimit_iff subscriptionName⟩

/-- A project of 30 and a subscription of 255 bytes. -/
def longName : String := "projects/" ++ idOfSize 30 ++ "/subscriptions/" ++ idOfSize 255

/-- Sizes for which the allowance of three bytes for each id is right. -/
def mediumSizes : List ℕ := List.range' 16352 32 ++ [328]

theorem nodup_mediumIds : (mediumSizes.map idOfSize).Nodup := by
  apply List.Nodup.map idOfSize_injective
  decide

def mediumIds : AckIDSet := ⟨mediumSizes.map idOfSize, by simpa using nodup_mediumIds⟩

/-- The name alone takes 312 bytes, so that the one request is 211 bytes too large. -/
theorem not_respectsLimit :
    ¬ RespectsLimit ((sendAcks .newestFirst longName mediumIds).run .empty []).calls := by
  have hcost : requestCost (mediumSizes.map idOfSize) < kMaxPayload := by
    have hsum : (mediumSizes.map (3 + ·)).sum = 524187 := by decide
    rw [requestCost, cost_idsOfSizes, hsum]
    decide
  have hwire : WireSize.repeatedStringField (mediumSizes.map idOfSize) = 524187 := by
    rw [wire_idsOfSizes (m := 1) (by decide)]
    decide
  have hname : WireSize.stringField longName = 312 := by
    have hsize : longName.utf8ByteSize = 309 := by
      simp only [longName, String.utf8ByteSize_append, utf8ByteSize_idOfSize]
      rfl
    rw [WireSize.stringField, hsize, WireSize.varint_eq (m := 1) (by decide) (by decide)]
  have hkeys : mediumIds.keys.Perm (mediumSizes.map idOfSize) := by
    simp [Unordered.keys, mediumIds]
  have hne : mediumSizes.map idOfSize ≠ [] := mt List.map_eq_nil_iff.mp (by decide)
  obtain ⟨l, hl, c, hc, hcl⟩ := sendBatches_whole (.acknowledge longName)
    (fun _ _ keepAlive => keepAlive) hkeys hne hcost .empty
  have hids : c.request.ackIDs ≠ [] := by
    rw [hcl]
    intro hnil
    rw [show l = [] from hnil] at hl
    exact hne hl.nil_eq.symm
  intro h
  have hlimit := h c hc hids
  have htotal : c.request.serializedSize = 312 + 524187 := by
    rw [hcl]
    exact congrArg₂ (· + ·) hname ((WireSize.repeatedStringField_perm hl).trans hwire)
  rw [htotal] at hlimit
  exact absurd hlimit (by decide)

end Pubsuber
