import Pubsuber.Ack.ModAckIterator

/-!
# What a round of acks sends and what it loses

The send loops are followed batch by batch: the ids of all requests of a loop
are distinct ids of the set it drains, a loop that returns has sent all of
them, and a loop that is cut short has an id that no successful request
carried.
-/

namespace Pubsuber

open HashContainer

/-- A result after which a send loop goes on. -/
def resultOk (result : CallResult) : Bool := (checkStatus result).toBool

def Call.succeeded (c : Call) : Bool := c.result.any resultOk

def okAt (now : TimePoint) : CallResult := .ok (⟨.ok, ""⟩, now)

def callIds (calls : List Call) : List AckID := calls.flatMap fun c => c.request.ackIDs

@[simp] theorem callIds_nil : callIds [] = [] := rfl

@[simp] theorem callIds_cons (c : Call) (calls : List Call) :
    callIds (c :: calls) = c.request.ackIDs ++ callIds calls := rfl

@[simp] theorem callIds_append (calls calls' : List Call) :
    callIds (calls ++ calls') = callIds calls ++ callIds calls' := List.flatMap_append

theorem mem_callIds {calls : List Call} {ackID : AckID} :
    ackID ∈ callIds calls ↔ ∃ c ∈ calls, ackID ∈ c.request.ackIDs := List.mem_flatMap

/-- The three uses a round makes of the two requests. -/
inductive RequestKind
  | ack
  | nack
  | extension
  deriving DecidableEq, Repr

/-- A `ModifyAckDeadline` request with a deadline of 0s is a nack. -/
def Request.kind : Request → RequestKind
  | .acknowledge _ _ => .ack
  | .modifyAckDeadline _ dl _ => if dl = 0 then .nack else .extension

def DoneAction.kind : DoneAction → RequestKind
  | .ack => .ack
  | .nack => .nack

/-- The ids carried by the requests of one kind, one after the other. -/
def idsOf (kind : RequestKind) (calls : List Call) : List AckID :=
  callIds (calls.filter fun c => c.request.kind = kind)

@[simp] theorem idsOf_nil (kind : RequestKind) : idsOf kind [] = [] := rfl

@[simp] theorem idsOf_append (kind : RequestKind) (calls calls' : List Call) :
    idsOf kind (calls ++ calls') = idsOf kind calls ++ idsOf kind calls' := by
  simp [idsOf]

theorem mem_idsOf {kind : RequestKind} {calls : List Call} {ackID : AckID} :
    ackID ∈ idsOf kind calls ↔
      ∃ c ∈ calls, c.request.kind = kind ∧ ackID ∈ c.request.ackIDs := by
  simp [idsOf, mem_callIds, and_assoc]

def OfKind (kind : RequestKind) (calls : List Call) : Prop :=
  ∀ c ∈ calls, c.request.kind = kind

theorem OfKind.idsOf_self {kind : RequestKind} {calls : List Call} (h : OfKind kind calls) :
    idsOf kind calls = callIds calls := by
  rw [idsOf, List.filter_eq_self.mpr]
  intro c hc
  simpa using h c hc

theorem OfKind.idsOf_ne {kind kind' : RequestKind} {calls : List Call} (h : OfKind kind calls)
    (hne : kind ≠ kind') : idsOf kind' calls = [] := by
  rw [idsOf, List.filter_eq_nil_iff.mpr]
  · rfl
  · intro c hc
    simpa [h c hc] using hne

section Loops

variable {α : Type} {key : α → AckID} (order : HashOrder) (request : List AckID → Request)
variable (callback : TimePoint → Unordered key → WatchDescrContainer → WatchDescrContainer)

theorem sendBatches_of_empty {ids : Unordered key} (h : ids.keys = [])
    (keepAlive : WatchDescrContainer) (results : List CallResult) :
    sendBatches order request callback ids keepAlive results =
      ⟨keepAlive, [], results, .returned ()⟩ := by
  cases results <;> simp [sendBatches, h]

theorem sendBatches_requests (ids : Unordered key) (keepAlive : WatchDescrContainer)
    (results : List CallResult) :
    ∀ c ∈ (sendBatches order request callback ids keepAlive results).calls,
      ∃ l, c.request = request l := by
  fun_induction sendBatches order request callback ids keepAlive results with
  | case1 => simp
  | case2 => simp
  | case3 => simp
  | case4 ids keepAlive result results hne batch call e he => simp [call]
  | case5 ids keepAlive result results hne batch call now hok p ih =>
    intro c hc
    rcases List.mem_cons.mp hc with rfl | hc
    · exact ⟨_, rfl⟩
    · exact ih c hc

theorem sendBatches_keys (hcb : ∀ now batch c, (callback now batch c).keys = c.keys)
    (ids : Unordered key) (keepAlive : WatchDescrContainer) (results : List CallResult) :
    (sendBatches order request callback ids keepAlive results).keepAlive.keys =
      keepAlive.keys := by
  fun_induction sendBatches order request callback ids keepAlive results with
  | case1 => rfl
  | case2 => rfl
  | case3 => rfl
  | case4 => rfl
  | case5 ids keepAlive result results hne batch call now hok p ih =>
    exact ih.trans (hcb now batch.2 keepAlive)

theorem sendBatches_keepAlive (ids : Unordered key) (keepAlive : WatchDescrContainer)
    (results : List CallResult) :
    (sendBatches order request (fun _ _ c => c) ids keepAlive results).keepAlive =
      keepAlive := by
  fun_induction sendBatches order request (fun _ _ c => c) ids keepAlive results with
  | case5 ids keepAlive result results hne batch call now hok p ih => exact ih
  | _ => rfl

variable {request}

theorem sendBatches_subperm (hreq : ∀ l, (request l).ackIDs = l) (ids : Unordered key)
    (keepAlive : WatchDescrContainer) (results : List CallResult) :
    (callIds (sendBatches order request callback ids keepAlive results).calls).Subperm
      ids.keys := by
  fun_induction sendBatches order request callback ids keepAlive results with
  | case1 => exact List.nil_subperm
  | case2 ids keepAlive hne batch =>
    have h := splitRequestIds_keys_perm order ids .empty kMaxPayload
    simpa [hreq, populateAckIds, batch] using
      (List.sublist_append_right _ _).subperm.trans h.subperm
  | case3 => exact List.nil_subperm
  | case4 ids keepAlive result results hne batch call e he =>
    have h := splitRequestIds_keys_perm order ids .empty kMaxPayload
    simpa [hreq, populateAckIds, batch, call] using
      (List.sublist_append_right _ _).subperm.trans h.subperm
  | case5 ids keepAlive result results hne batch call now hok p ih =>
    have h := splitRequestIds_keys_perm order ids .empty kMaxPayload
    rw [callIds_cons, hreq]
    exact ((List.subperm_append_left _).mpr ih).trans
      (List.perm_append_comm.trans h).subperm

theorem sendBatches_nodup (hreq : ∀ l, (request l).ackIDs = l) (ids : Unordered key)
    (keepAlive : WatchDescrContainer) (results : List CallResult) :
    (callIds (sendBatches order request callback ids keepAlive results).calls).Nodup := by
  obtain ⟨l, hl, hsub⟩ := sendBatches_subperm order callback hreq ids keepAlive results
  exact hl.nodup_iff.mp (hsub.nodup ids.keys_nodup)

/-- A loop that returns has sent every id exactly once, each time with success. -/
theorem sendBatches_returned (hreq : ∀ l, (request l).ackIDs = l) (ids : Unordered key)
    (keepAlive : WatchDescrContainer) (results : List CallResult)
    (h : (sendBatches order request callback ids keepAlive results).ending = .returned ()) :
    (callIds (sendBatches order request callback ids keepAlive results).calls).Perm ids.keys ∧
      ∀ c ∈ (sendBatches order request callback ids keepAlive results).calls,
        c.succeeded = true := by
  fun_induction sendBatches order request callback ids keepAlive results with
  | case1 keepAlive ids hempty =>
    rw [Unordered.isEmpty_iff] at hempty
    simp [hempty]
  | case2 => contradiction
  | case3 ids keepAlive result results hempty =>
    rw [Unordered.isEmpty_iff] at hempty
    simp [hempty]
  | case4 => contradiction
  | case5 ids keepAlive result results hne batch call now hok p ih =>
    obtain ⟨hperm, hsucc⟩ := ih h
    have hsplit := splitRequestIds_keys_perm order ids .empty kMaxPayload
    constructor
    · rw [callIds_cons, hreq]
      exact (hperm.append_left _).trans (List.perm_append_comm.trans hsplit)
    · intro c hc
      rcases List.mem_cons.mp hc with rfl | hc
      · simp [call, Call.succeeded, resultOk, hok, Except.toBool]
      · exact hsucc c hc

theorem sendBatches_unsent (hreq : ∀ l, (request l).ackIDs = l) (ids : Unordered key)
    (keepAlive : WatchDescrContainer) (results : List CallResult)
    (h : (sendBatches order request callback ids keepAlive results).ending ≠ .returned ()) :
    ∃ ackID ∈ ids.keys,
      ∀ c ∈ (sendBatches order request callback ids keepAlive results).calls,
        c.succeeded = true → ackID ∉ c.request.ackIDs := by
  fun_induction sendBatches order request callback ids keepAlive results with
  | case1 => exact absurd rfl h
  | case2 ids keepAlive hne batch =>
    obtain ⟨ackID, hmem⟩ := List.exists_mem_of_ne_nil _ (by simpa using hne)
    exact ⟨ackID, hmem, by simp [Call.succeeded]⟩
  | case3 => exact absurd rfl h
  | case4 ids keepAlive result results hne batch call e he =>
    obtain ⟨ackID, hmem⟩ := List.exists_mem_of_ne_nil _ (by simpa using hne)
    exact ⟨ackID, hmem, by simp [call, Call.succeeded, resultOk, he, Except.toBool]⟩
  | case5 ids keepAlive result results hne batch call now hok p ih =>
    obtain ⟨ackID, hmem, hun⟩ := ih h
    have hsplit := splitRequestIds_keys_perm order ids .empty kMaxPayload
    refine ⟨ackID, hsplit.subset (List.mem_append_left _ hmem), ?_⟩
    intro c hc hs
    rcases List.mem_cons.mp hc with rfl | hc
    · have hn : (batch.1.keys ++ batch.2.keys).Nodup := hsplit.nodup_iff.mpr ids.keys_nodup
      simpa [call, hreq, populateAckIds] using
        (List.disjoint_of_nodup_append hn : List.Disjoint _ _) hmem
    · exact hun c hc hs

/-- What the send loops have left to send after `n` batches. -/
def leftAfter : ℕ → Unordered key → Unordered key
  | 0, ids => ids
  | n + 1, ids => leftAfter n (splitRequestIds .newestFirst ids .empty kMaxPayload).1

variable (request)

theorem sendBatches_results (ids : Unordered key) (keepAlive : WatchDescrContainer)
    (results : List CallResult)
    (h : (sendBatches order request callback ids keepAlive results).ending = .returned ()) :
    let p := sendBatches order request callback ids keepAlive results
    (leftAfter p.calls.length ids).keys = [] ∧ p.results = results.drop p.calls.length ∧
      ∀ r ∈ results.take p.calls.length, resultOk r = true := by
  fun_induction sendBatches order request callback ids keepAlive results with
  | case1 keepAlive ids hempty => simpa [leftAfter] using hempty
  | case2 => contradiction
  | case3 ids keepAlive result results hempty => simpa [leftAfter] using hempty
  | case4 => contradiction
  | case5 ids keepAlive result results hne batch call now hok p ih =>
    obtain ⟨hleft, hdrop, hall⟩ := ih h
    refine ⟨?_, hdrop, ?_⟩
    · simp only [List.length_cons, leftAfter]
      rw [splitRequestIds_fst_order .newestFirst order ids .empty .empty kMaxPayload]
      exact hleft
    · intro r hr
      rcases List.mem_cons.mp hr with rfl | hr
      · simp [resultOk, hok, Except.toBool]
      · exact hall r hr

theorem sendBatches_of_results_ok (n : ℕ) (ids : Unordered key)
    (keepAlive : WatchDescrContainer) (results : List CallResult)
    (hn : (leftAfter n ids).keys = []) (hok : ∀ r ∈ results.take n, resultOk r = true) :
    let p := sendBatches order request callback ids keepAlive results
    (p.ending = .returned () ∧ p.calls.length ≤ n) ∨ p.ending = .calling := by
  induction n generalizing ids keepAlive results with
  | zero =>
    have hempty : ids.keys = [] := hn
    rw [sendBatches_of_empty order request callback hempty]
    exact .inl ⟨rfl, le_rfl⟩
  | succ n ih =>
    by_cases hempty : ids.keys = []
    · rw [sendBatches_of_empty order request callback hempty]
      exact .inl ⟨rfl, Nat.zero_le _⟩
    · cases results with
      | nil => simp [sendBatches, hempty]
      | cons result results =>
        have hresult : resultOk result = true := hok result (by simp)
        cases hc : checkStatus result with
        | error e => simp [resultOk, hc, Except.toBool] at hresult
        | ok now =>
          rw [leftAfter, splitRequestIds_fst_order .newestFirst order ids .empty .empty
            kMaxPayload] at hn
          have h := ih _ (callback now (splitRequestIds order ids .empty kMaxPayload).2 keepAlive)
            results hn (fun r hr => hok r (by simp [hr]))
          simpa [sendBatches, hempty, hc] using h

end Loops

section Kinds

variable (order : HashOrder) (subscriptionName : String)

theorem sendAcks_kind (ids : AckIDSet) (keepAlive : WatchDescrContainer)
    (results : List CallResult) :
    OfKind .ack ((sendAcks order subscriptionName ids).run keepAlive results).calls := by
  intro c hc
  obtain ⟨l, hl⟩ := sendBatches_requests order _ _ ids keepAlive results c hc
  rw [hl]
  rfl

theorem sendNacks_kind (ids : AckIDSet) (keepAlive : WatchDescrContainer)
    (results : List CallResult) :
    OfKind .nack ((sendNacks order subscriptionName ids).run keepAlive results).calls := by
  intro c hc
  obtain ⟨l, hl⟩ := sendBatches_requests order _ _ ids keepAlive results c hc
  rw [hl]
  rfl

end Kinds

theorem keys_updateNextAcks (next : TimePoint) (toSend : AckIDPackSet)
    (keepAlive : WatchDescrContainer) :
    (updateNextAcks next toSend keepAlive).keys = keepAlive.keys := by
  unfold updateNextAcks
  induction toSend.toList generalizing keepAlive with
  | nil => rfl
  | cons pack packs ih => rw [List.foldl_cons, ih, Unordered.keys_update]

theorem mem_eraseKeys {c : WatchDescrContainer} {what : AckIDSet}
    {entry : AckID × AckWatchDescriptior} :
    entry ∈ (eraseKeys c what).toList ↔ entry ∈ c.toList ∧ entry.1 ∉ what.keys := by
  have h := Unordered.find?_foldl_erase what.toList c entry.1
  constructor
  · intro hmem
    have hsome : (eraseKeys c what).find? entry.1 = some entry :=
      Unordered.find?_eq_some.mpr ⟨hmem, rfl⟩
    rw [eraseKeys, h] at hsome
    split_ifs at hsome with hw
    exact ⟨(Unordered.find?_eq_some.mp hsome).1, by simpa [Unordered.keys] using hw⟩
  · rintro ⟨hmem, hw⟩
    have hsome : (eraseKeys c what).find? entry.1 = some entry := by
      rw [eraseKeys, h, if_neg (by simpa [Unordered.keys] using hw)]
      exact Unordered.find?_eq_some.mpr ⟨hmem, rfl⟩
    exact (Unordered.find?_eq_some.mp hsome).1

/-- When taking an element does not depend on the captured variables, exactly the
elements that pass end up in `toModify`. -/
theorem mem_keys_giveMeTheKeys {σ : Type} (order : HashOrder) (ids : WatchDescrContainer)
    (pred : σ → AckWatchDescriptior → Bool × σ) (take : AckWatchDescriptior → Bool)
    (hpred : ∀ s d, (pred s d).1 = take d) (captured : σ) (ackID : AckID) :
    ackID ∈ (giveMeTheKeys order ids .empty pred captured).1.keys ↔
      ∃ descr, (ackID, descr) ∈ ids.toList ∧ take descr = true := by
  have hloop : ∀ (entries : List (AckID × AckWatchDescriptior)) (acc : AckIDPackSet × σ),
      ackID ∈ (entries.foldl (fun acc pair =>
        let taken := pred acc.2 pair.2
        (if taken.1 then acc.1.emplace order (pair.1, pair.1) else acc.1, taken.2)) acc).1.keys ↔
      ackID ∈ acc.1.keys ∨ ∃ descr, (ackID, descr) ∈ entries ∧ take descr = true := by
    intro entries
    induction entries with
    | nil => simp
    | cons entry entries ih =>
      intro acc
      obtain ⟨k, d⟩ := entry
      rw [List.foldl_cons, ih]
      simp only [hpred]
      by_cases ht : take d = true
      · simp only [ht, if_true, Unordered.mem_keys_emplace, List.mem_cons, Prod.mk.injEq]
        constructor
        · rintro ((rfl | h) | ⟨descr, h, htake⟩)
          · exact .inr ⟨d, .inl ⟨rfl, rfl⟩, ht⟩
          · exact .inl h
          · exact .inr ⟨descr, .inr h, htake⟩
        · rintro (h | ⟨descr, ⟨rfl, rfl⟩ | h, htake⟩)
          · exact .inl (.inr h)
          · exact .inl (.inl rfl)
          · exact .inr ⟨descr, h, htake⟩
      · simp only [ht, List.mem_cons, Prod.mk.injEq]
        constructor
        · rintro (h | ⟨descr, h, htake⟩)
          · exact .inl h
          · exact .inr ⟨descr, .inr h, htake⟩
        · rintro (h | ⟨descr, ⟨rfl, rfl⟩ | h, htake⟩)
          · exact .inl h
          · exact absurd htake ht
          · exact .inr ⟨descr, h, htake⟩
  simpa [giveMeTheKeys] using hloop ids.toList (.empty, captured)

namespace Rpc

variable {α β : Type}

theorem getKeepAlive_bind (f : WatchDescrContainer → Rpc β) (keepAlive : WatchDescrContainer)
    (results : List CallResult) :
    (getKeepAlive >>= f).run keepAlive results = (f keepAlive).run keepAlive results := rfl

theorem modifyKeepAlive_bind (g : WatchDescrContainer → WatchDescrContainer)
    (f : Unit → Rpc β) (keepAlive : WatchDescrContainer) (results : List CallResult) :
    (modifyKeepAlive g >>= f).run keepAlive results = (f ()).run (g keepAlive) results := rfl

theorem orTerminate_some_bind (a : α) (f : α → Rpc β) (keepAlive : WatchDescrContainer)
    (results : List CallResult) :
    (orTerminate (some a) >>= f).run keepAlive results = (f a).run keepAlive results := rfl

theorem orTerminate_none_bind (f : α → Rpc β) (keepAlive : WatchDescrContainer)
    (results : List CallResult) :
    (orTerminate none >>= f).run keepAlive results = ⟨keepAlive, [], results, .terminated⟩ := rfl

theorem bind_of_returned {x : Rpc α} {f : α → Rpc β} {keepAlive : WatchDescrContainer}
    {results : List CallResult} {a : α} (h : (x.run keepAlive results).ending = .returned a) :
    (x >>= f).run keepAlive results =
      let p := x.run keepAlive results
      let q := (f a).run p.keepAlive p.results
      ⟨q.keepAlive, p.calls ++ q.calls, q.results, q.ending⟩ := by
  change (Rpc.bind x f).run keepAlive results = _
  simp only [Rpc.bind, h]

/-- A piece that does not return decides the rest. -/
theorem bind_of_cut {x : Rpc α} {f : α → Rpc β} {keepAlive : WatchDescrContainer}
    {results : List CallResult} (b : β)
    (h : ∀ a, (x.run keepAlive results).ending ≠ .returned a) :
    (x >>= f).run keepAlive results =
      let p := x.run keepAlive results
      ⟨p.keepAlive, p.calls, p.results, p.ending.map fun _ => b⟩ := by
  change (Rpc.bind x f).run keepAlive results = _
  cases hx : (x.run keepAlive results).ending with
  | returned a => exact absurd hx (h a)
  | threw e => simp only [Rpc.bind, hx, Ending.map]
  | terminated => simp only [Rpc.bind, hx, Ending.map]
  | calling => simp only [Rpc.bind, hx, Ending.map]

end Rpc

/-- An id whose deadline `ModifyAckDeadlines` extends. -/
def Due (keepAlive : WatchDescrContainer) (gracePeriod : ℤ) (pseudoNow : TimePoint)
    (ackID : AckID) : Prop :=
  ∃ descr, (ackID, descr) ∈ keepAlive.toList ∧ descr.extendIn pseudoNow ≤ gracePeriod * 1000

theorem Due.mem_keys {keepAlive : WatchDescrContainer} {gracePeriod : ℤ}
    {pseudoNow : TimePoint} {ackID : AckID} (h : Due keepAlive gracePeriod pseudoNow ackID) :
    ackID ∈ keepAlive.keys := by
  obtain ⟨descr, hmem, -⟩ := h
  exact Unordered.key_mem_keys hmem

variable (order : HashOrder)

theorem mem_keys_toModify (keepAlive : WatchDescrContainer) (gracePeriod : ℤ)
    (pseudoNow : TimePoint) (sleepTime : ℤ) (ackID : AckID) :
    ackID ∈ (giveMeTheKeys order keepAlive .empty (extendNow gracePeriod pseudoNow)
      sleepTime).1.keys ↔ Due keepAlive gracePeriod pseudoNow ackID := by
  rw [mem_keys_giveMeTheKeys order keepAlive (extendNow gracePeriod pseudoNow)
    (fun d => decide (d.extendIn pseudoNow ≤ gracePeriod * 1000))]
  · simp [Due]
  · intro s d
    by_cases h : d.extendIn pseudoNow ≤ gracePeriod * 1000
    · simp [extendNow, h, not_lt.mpr h]
    · simp [extendNow, h, not_le.mp h]

/-- `ModifyAckDeadlines` by its exits: nothing is watched, nothing is due, or the due
ids are sent. -/
theorem modifyAckDeadlines_cases (subscriptionName : String) (dl gracePeriod : ℤ)
    (pseudoNow : TimePoint) (keepAlive : WatchDescrContainer) (results : List CallResult) :
    let p := (modifyAckDeadlines order subscriptionName dl gracePeriod pseudoNow).run keepAlive
      results
    let taken := giveMeTheKeys order keepAlive .empty (extendNow gracePeriod pseudoNow)
      kSoManyMilliseconds
    (keepAlive.keys = [] ∧ p = ⟨keepAlive, [], results, .returned kSoManyMilliseconds⟩) ∨
    (keepAlive.keys ≠ [] ∧ taken.1.keys = [] ∧
      p = ⟨keepAlive, [], results, .returned (taken.2 / 2)⟩) ∨
    (taken.1.keys ≠ [] ∧
      let s := sendBatches order (.modifyAckDeadline subscriptionName dl)
        (fun now => updateNextAcks (now + dl * 1000000000)) taken.1 keepAlive results
      p = ⟨s.keepAlive, s.calls, s.results, s.ending.map fun _ => kSoManyMilliseconds⟩) := by
  intro p taken
  by_cases hempty : keepAlive.keys = []
  · left
    refine ⟨hempty, ?_⟩
    simp only [p, modifyAckDeadlines, Rpc.getKeepAlive_bind]
    rw [if_pos (by simpa using hempty)]
    rfl
  · right
    by_cases hnone : taken.1.keys = []
    · left
      refine ⟨hempty, hnone, ?_⟩
      simp only [p, modifyAckDeadlines, Rpc.getKeepAlive_bind]
      rw [if_neg (by simpa using hempty), if_pos (by simpa using hnone)]
      rfl
    · right
      refine ⟨hnone, ?_⟩
      intro s
      simp only [p, modifyAckDeadlines, Rpc.getKeepAlive_bind]
      rw [if_neg (by simpa using hempty), if_neg (by simpa using hnone)]
      by_cases hs : s.ending = .returned ()
      · rw [Rpc.bind_of_returned hs, hs]
        simp only [Ending.map, s, taken]
        exact congrArg (fun calls => Progress.mk _ calls _ _) (List.append_nil _)
      · rw [Rpc.bind_of_cut kSoManyMilliseconds (fun _ => hs)]

theorem modifyAckDeadlines_spec (subscriptionName : String) (dl gracePeriod : ℤ)
    (pseudoNow : TimePoint) (keepAlive : WatchDescrContainer) (results : List CallResult) :
    let p := (modifyAckDeadlines order subscriptionName dl gracePeriod pseudoNow).run keepAlive
      results
    p.keepAlive.keys = keepAlive.keys ∧
      (∀ c ∈ p.calls, ∃ l, c.request = .modifyAckDeadline subscriptionName dl l) ∧
      (callIds p.calls).Nodup ∧
      (∀ ackID ∈ callIds p.calls, Due keepAlive gracePeriod pseudoNow ackID) ∧
      ∀ sleep, p.ending = .returned sleep → (∀ c ∈ p.calls, c.succeeded = true) ∧
        ∀ ackID, Due keepAlive gracePeriod pseudoNow ackID → ackID ∈ callIds p.calls := by
  intro p
  have hdue := mem_keys_toModify order keepAlive gracePeriod pseudoNow kSoManyMilliseconds
  rcases modifyAckDeadlines_cases order subscriptionName dl gracePeriod pseudoNow keepAlive
    results with ⟨hempty, hp⟩ | ⟨-, hnone, hp⟩ | ⟨-, hp⟩
  · have hp : p = _ := hp
    refine ⟨by rw [hp], by simp [hp], by simp [hp], by simp [hp], ?_⟩
    intro sleep _
    refine ⟨by simp [hp], fun ackID h => ?_⟩
    have := h.mem_keys
    simp [hempty] at this
  · have hp : p = _ := hp
    refine ⟨by rw [hp], by simp [hp], by simp [hp], by simp [hp], ?_⟩
    intro sleep _
    refine ⟨by simp [hp], fun ackID h => ?_⟩
    rw [← hdue, hnone] at h
    simp at h
  · have hp : p = _ := hp
    rw [hp]
    refine ⟨sendBatches_keys order _ _ (fun _ _ _ => keys_updateNextAcks _ _ _) _ _ _,
      sendBatches_requests order _ _ _ _ _, sendBatches_nodup order _ (fun _ => rfl) _ _ _,
      ?_, ?_⟩
    · intro ackID h
      exact (hdue ackID).mp
        ((sendBatches_subperm order _ (fun _ => rfl) _ _ _).subset h)
    · intro sleep hsleep
      obtain ⟨⟨⟩, hreturned⟩ := Ending.eq_returned_of_map hsleep
      obtain ⟨hperm, hok⟩ := sendBatches_returned order
        (fun now => updateNextAcks (now + dl * 1000000000))
        (fun l => (rfl : (Request.modifyAckDeadline subscriptionName dl l).ackIDs = l)) _
        keepAlive results hreturned
      exact ⟨hok, fun ackID h => hperm.symm.subset ((hdue ackID).mpr h)⟩

/-- What a round does after the swap, by how far it gets. -/
theorem ModAckIterator.sendPending_cases (it : ModAckIterator) (acks nacks : AckIDSet)
    (pseudoNow : TimePoint) (keepAlive : WatchDescrContainer) (results : List CallResult) :
    let p := (it.sendPending order acks nacks pseudoNow).run keepAlive results
    let a := (sendAcks order it.subscriptionName acks).run (eraseKeys keepAlive acks) results
    let n := (sendNacks order it.subscriptionName nacks).run
      (eraseKeys (eraseKeys keepAlive acks) nacks) a.results
    (a.ending ≠ .returned () ∧
      p = ⟨eraseKeys keepAlive acks, a.calls, a.results, a.ending.map fun _ => 0⟩) ∨
    (a.ending = .returned () ∧ n.ending ≠ .returned () ∧
      p = ⟨eraseKeys (eraseKeys keepAlive acks) nacks, a.calls ++ n.calls, n.results,
        n.ending.map fun _ => 0⟩) ∨
    (a.ending = .returned () ∧ n.ending = .returned () ∧ ackDeadline it.ackDist = none ∧
      p = ⟨eraseKeys (eraseKeys keepAlive acks) nacks, a.calls ++ n.calls, n.results,
        .terminated⟩) ∨
    ∃ dl, a.ending = .returned () ∧ n.ending = .returned () ∧
      ackDeadline it.ackDist = some dl ∧
      let m := (modifyAckDeadlines order it.subscriptionName dl it.gracePeriod pseudoNow).run
        (eraseKeys (eraseKeys keepAlive acks) nacks) n.results
      p = ⟨m.keepAlive, a.calls ++ (n.calls ++ m.calls), m.results, m.ending⟩ := by
  intro p a n
  have ha : a.keepAlive = eraseKeys keepAlive acks := sendBatches_keepAlive order _ _ _ _
  have hn : n.keepAlive = eraseKeys (eraseKeys keepAlive acks) nacks :=
    sendBatches_keepAlive order _ _ _ _
  by_cases hra : a.ending = .returned ()
  · by_cases hrn : n.ending = .returned ()
    · cases hdl : ackDeadline it.ackDist with
      | none =>
        refine .inr (.inr (.inl ⟨hra, hrn, rfl, ?_⟩))
        simp only [p, ModAckIterator.sendPending, hdl, Rpc.modifyKeepAlive_bind]
        rw [Rpc.bind_of_returned hra]
        simp only [Rpc.modifyKeepAlive_bind, ha, a]
        rw [Rpc.bind_of_returned hrn]
        simp only [Rpc.orTerminate_none_bind, List.append_nil, hn, n]
      | some dl =>
        refine .inr (.inr (.inr ⟨dl, hra, hrn, rfl, ?_⟩))
        simp only [p, ModAckIterator.sendPending, hdl, Rpc.modifyKeepAlive_bind]
        rw [Rpc.bind_of_returned hra]
        simp only [Rpc.modifyKeepAlive_bind, ha, a]
        rw [Rpc.bind_of_returned hrn]
        simp only [Rpc.orTerminate_some_bind, hn, n]
    · refine .inr (.inl ⟨hra, hrn, ?_⟩)
      simp only [p, ModAckIterator.sendPending, Rpc.modifyKeepAlive_bind]
      rw [Rpc.bind_of_returned hra]
      simp only [Rpc.modifyKeepAlive_bind, ha, a]
      rw [Rpc.bind_of_cut 0 (fun _ => hrn)]
      simp only [hn, n]
  · refine .inl ⟨hra, ?_⟩
    simp only [p, ModAckIterator.sendPending, Rpc.modifyKeepAlive_bind]
    rw [Rpc.bind_of_cut 0 (fun _ => hra)]
    simp only [ha, a]

theorem ModAckIterator.finishRound_loops (it : ModAckIterator) (acks nacks : AckIDSet)
    (pseudoNow : TimePoint) (results : List CallResult) {sleep : ℤ}
    (h : (it.finishRound order acks nacks pseudoNow results).ending = .returned sleep) :
    let kept := eraseKeys (eraseKeys it.keepAliveAckIDs acks) nacks
    let a := (sendAcks order it.subscriptionName acks).run (eraseKeys it.keepAliveAckIDs acks)
      results
    let n := (sendNacks order it.subscriptionName nacks).run kept a.results
    ∃ dl, ackDeadline it.ackDist = some dl ∧ a.ending = .returned () ∧
      n.ending = .returned () ∧
      let m := (modifyAckDeadlines order it.subscriptionName dl it.gracePeriod pseudoNow).run
        kept n.results
      m.ending = .returned sleep ∧
        (it.finishRound order acks nacks pseudoNow results).calls =
          a.calls ++ (n.calls ++ m.calls) ∧
        (it.finishRound order acks nacks pseudoNow results).iterator.keepAliveAckIDs =
          m.keepAlive := by
  intro kept a n
  have hend : ((it.sendPending order acks nacks pseudoNow).run it.keepAliveAckIDs
    results).ending = .returned sleep := h
  rcases it.sendPending_cases order acks nacks pseudoNow it.keepAliveAckIDs results with
    ⟨hcut, hp⟩ | ⟨-, hcut, hp⟩ | ⟨-, -, -, hp⟩ | ⟨dl, ha, hn, hdl, hp⟩
  · rw [hp] at hend
    exact absurd (Ending.eq_returned_of_map hend).choose_spec hcut
  · rw [hp] at hend
    exact absurd (Ending.eq_returned_of_map hend).choose_spec hcut
  · rw [hp] at hend
    contradiction
  · rw [hp] at hend
    exact ⟨dl, hdl, ha, hn, hend, (congrArg Progress.calls hp :),
      (congrArg Progress.keepAlive hp :)⟩

section Loops

variable (it : ModAckIterator) (results : List CallResult)

def ModAckIterator.keptAlive : WatchDescrContainer :=
  eraseKeys (eraseKeys it.keepAliveAckIDs it.pendingAckIDs) it.pendingNackIDs

def ModAckIterator.ackLoop : Progress Unit :=
  (sendAcks order it.subscriptionName it.pendingAckIDs).run
    (eraseKeys it.keepAliveAckIDs it.pendingAckIDs) results

def ModAckIterator.nackLoop : Progress Unit :=
  (sendNacks order it.subscriptionName it.pendingNackIDs).run it.keptAlive
    (it.ackLoop order results).results

theorem ModAckIterator.processModAcks_returned (pseudoNow : TimePoint) {sleep : ℤ}
    (h : (it.processModAcks order pseudoNow results).ending = .returned sleep) :
    let a := it.ackLoop order results
    let n := it.nackLoop order results
    ∃ dl, ackDeadline it.ackDist = some dl ∧ a.ending = .returned () ∧
      n.ending = .returned () ∧
      let m := (modifyAckDeadlines order it.subscriptionName dl it.gracePeriod pseudoNow).run
        it.keptAlive n.results
      m.ending = .returned sleep ∧
        (it.processModAcks order pseudoNow results).calls = a.calls ++ (n.calls ++ m.calls) ∧
        (it.processModAcks order pseudoNow results).iterator.keepAliveAckIDs = m.keepAlive :=
  it.swapPending.1.finishRound_loops order it.pendingAckIDs it.pendingNackIDs pseudoNow results h

end Loops

structure RoundFacts (it : ModAckIterator) (acks nacks : AckIDSet) (r : Round) : Prop where
  keys_subset : ∀ ackID ∈ r.iterator.keepAliveAckIDs.keys, ackID ∈ it.keepAliveAckIDs.keys
  kept : ∀ ackID ∈ it.keepAliveAckIDs.keys, ackID ∉ acks.keys → ackID ∉ nacks.keys →
    ackID ∈ r.iterator.keepAliveAckIDs.keys
  acked : ∀ ackID ∈ idsOf .ack r.calls,
    ackID ∈ acks.keys ∧ ackID ∉ r.iterator.keepAliveAckIDs.keys
  nacked : ∀ ackID ∈ idsOf .nack r.calls,
    ackID ∈ nacks.keys ∧ ackID ∉ r.iterator.keepAliveAckIDs.keys
  extended : ∀ ackID ∈ idsOf .extension r.calls, ackID ∈ r.iterator.keepAliveAckIDs.keys

theorem modifyAckDeadlines_kind (subscriptionName : String) {dl : ℤ} (hdl : dl ≠ 0)
    (gracePeriod : ℤ) (pseudoNow : TimePoint) (keepAlive : WatchDescrContainer)
    (results : List CallResult) :
    OfKind .extension ((modifyAckDeadlines order subscriptionName dl gracePeriod pseudoNow).run
      keepAlive results).calls := by
  intro c hc
  obtain ⟨-, hreq, -⟩ := modifyAckDeadlines_spec order subscriptionName dl gracePeriod pseudoNow
    keepAlive results
  obtain ⟨l, hl⟩ := hreq c hc
  simp [hl, Request.kind, hdl]

theorem sendAcks_ids_subset (subscriptionName : String) (ids : AckIDSet)
    (keepAlive : WatchDescrContainer) (results : List CallResult) :
    ∀ ackID ∈ callIds ((sendAcks order subscriptionName ids).run keepAlive results).calls,
      ackID ∈ ids.keys :=
  fun _ h => (sendBatches_subperm order _ (fun _ => rfl) ids keepAlive results).subset h

theorem sendNacks_ids_subset (subscriptionName : String) (ids : AckIDSet)
    (keepAlive : WatchDescrContainer) (results : List CallResult) :
    ∀ ackID ∈ callIds ((sendNacks order subscriptionName ids).run keepAlive results).calls,
      ackID ∈ ids.keys :=
  fun _ h => (sendBatches_subperm order _ (fun _ => rfl) ids keepAlive results).subset h

theorem ackDeadline_ne_zero {ackDist : AckDistribution} {dl : ℤ}
    (h : ackDeadline ackDist = some dl) : dl ≠ 0 := by
  have := (ackDeadline_bounds h).1
  unfold kMinAckDeadline at this
  omega

theorem idsOf_of_kinds {as ns ms : List Call} (has : OfKind .ack as) (hns : OfKind .nack ns)
    (hms : OfKind .extension ms) :
    idsOf .ack (as ++ (ns ++ ms)) = callIds as ∧ idsOf .nack (as ++ (ns ++ ms)) = callIds ns ∧
      idsOf .extension (as ++ (ns ++ ms)) = callIds ms := by
  simp only [idsOf_append]
  refine ⟨?_, ?_, ?_⟩
  · rw [has.idsOf_self, hns.idsOf_ne (by decide), hms.idsOf_ne (by decide), List.append_nil,
      List.append_nil]
  · rw [has.idsOf_ne (by decide), hns.idsOf_self, hms.idsOf_ne (by decide), List.append_nil,
      List.nil_append]
  · rw [has.idsOf_ne (by decide), hns.idsOf_ne (by decide), hms.idsOf_self, List.nil_append,
      List.nil_append]

theorem RoundFacts.of_calls {it : ModAckIterator} {acks nacks : AckIDSet} {r : Round}
    (as ns ms : List Call) (hcalls : r.calls = as ++ (ns ++ ms))
    (has : OfKind .ack as) (hns : OfKind .nack ns) (hms : OfKind .extension ms)
    (hasub : ∀ ackID ∈ callIds as, ackID ∈ acks.keys)
    (hnsub : ∀ ackID ∈ callIds ns,
      ackID ∈ nacks.keys ∧ ackID ∉ r.iterator.keepAliveAckIDs.keys)
    (hmsub : ∀ ackID ∈ callIds ms, ackID ∈ r.iterator.keepAliveAckIDs.keys)
    (hold : ∀ ackID ∈ r.iterator.keepAliveAckIDs.keys,
      ackID ∈ it.keepAliveAckIDs.keys ∧ ackID ∉ acks.keys)
    (hkept : ∀ ackID ∈ it.keepAliveAckIDs.keys, ackID ∉ acks.keys → ackID ∉ nacks.keys →
      ackID ∈ r.iterator.keepAliveAckIDs.keys) : RoundFacts it acks nacks r where
  keys_subset ackID h := (hold ackID h).1
  kept := hkept
  acked ackID h := by
    rw [hcalls, (idsOf_of_kinds has hns hms).1] at h
    exact ⟨hasub ackID h, fun hk => (hold ackID hk).2 (hasub ackID h)⟩
  nacked ackID h := by
    rw [hcalls, (idsOf_of_kinds has hns hms).2.1] at h
    exact hnsub ackID h
  extended ackID h := by
    rw [hcalls, (idsOf_of_kinds has hns hms).2.2] at h
    exact hmsub ackID h

/-- Once both send loops have been reached, the keep-alive map has lost the ids of
both sets and keeps the rest. -/
theorem RoundFacts.of_loops {it : ModAckIterator} {acks nacks : AckIDSet} {r : Round}
    (as ns ms : List Call) (hcalls : r.calls = as ++ (ns ++ ms))
    (has : OfKind .ack as) (hns : OfKind .nack ns) (hms : OfKind .extension ms)
    (hasub : ∀ ackID ∈ callIds as, ackID ∈ acks.keys)
    (hnsub : ∀ ackID ∈ callIds ns, ackID ∈ nacks.keys)
    (hkeys : r.iterator.keepAliveAckIDs.keys =
      (eraseKeys (eraseKeys it.keepAliveAckIDs acks) nacks).keys)
    (hmsub : ∀ ackID ∈ callIds ms, ackID ∈ r.iterator.keepAliveAckIDs.keys) :
    RoundFacts it acks nacks r := by
  have hkept : ∀ ackID, ackID ∈ r.iterator.keepAliveAckIDs.keys ↔
      (ackID ∈ it.keepAliveAckIDs.keys ∧ ackID ∉ acks.keys) ∧ ackID ∉ nacks.keys := by
    intro ackID
    rw [hkeys, mem_keys_eraseKeys, mem_keys_eraseKeys]
  apply RoundFacts.of_calls as ns ms hcalls has hns hms hasub
  case hnsub =>
    intro ackID h
    exact ⟨hnsub ackID h, fun hk => ((hkept ackID).mp hk).2 (hnsub ackID h)⟩
  case hmsub => exact hmsub
  case hold =>
    intro ackID h
    exact ((hkept ackID).mp h).1
  case hkept =>
    intro ackID h hna hnn
    exact (hkept ackID).mpr ⟨⟨h, hna⟩, hnn⟩

theorem ModAckIterator.finishRound_facts (it : ModAckIterator) (acks nacks : AckIDSet)
    (pseudoNow : TimePoint) (results : List CallResult) :
    RoundFacts it acks nacks (it.finishRound order acks nacks pseudoNow results) := by
  let a := (sendAcks order it.subscriptionName acks).run (eraseKeys it.keepAliveAckIDs acks)
    results
  let kept := eraseKeys (eraseKeys it.keepAliveAckIDs acks) nacks
  let n := (sendNacks order it.subscriptionName nacks).run kept a.results
  have hak : OfKind .ack a.calls := sendAcks_kind order _ _ _ _
  have has := sendAcks_ids_subset order it.subscriptionName acks
    (eraseKeys it.keepAliveAckIDs acks) results
  have hnk : OfKind .nack n.calls := sendNacks_kind order _ _ _ _
  have hns := sendNacks_ids_subset order it.subscriptionName nacks kept a.results
  have hnil : ∀ kind, OfKind kind [] := fun _ c hc => absurd hc List.not_mem_nil
  -- both loops were reached and nothing was extended
  have hreached : ∀ r : Round, r.iterator.keepAliveAckIDs = kept →
      r.calls = a.calls ++ n.calls → RoundFacts it acks nacks r := by
    intro r hr hcalls
    apply RoundFacts.of_loops a.calls n.calls [] (by simpa using hcalls) hak hnk (hnil _) has hns
    · rw [hr]
    · simp
  rcases it.sendPending_cases order acks nacks pseudoNow it.keepAliveAckIDs results with
    ⟨-, hp⟩ | ⟨-, -, hp⟩ | ⟨-, -, -, hp⟩ | ⟨dl, -, -, hdl, hp⟩
  · -- the acks were cut short: nacks are still kept alive
    have hkeep : (it.finishRound order acks nacks pseudoNow results).iterator.keepAliveAckIDs =
        eraseKeys it.keepAliveAckIDs acks := congrArg Progress.keepAlive hp
    have hcalls : (it.finishRound order acks nacks pseudoNow results).calls = a.calls :=
      congrArg Progress.calls hp
    apply RoundFacts.of_calls a.calls [] [] (by simpa using hcalls) hak (hnil _) (hnil _) has
    case hnsub => simp
    case hmsub => simp
    case hold =>
      intro ackID h
      rw [hkeep, mem_keys_eraseKeys] at h
      exact h
    case hkept =>
      intro ackID h hna _
      rw [hkeep, mem_keys_eraseKeys]
      exact ⟨h, hna⟩
  · exact hreached _ (congrArg Progress.keepAlive hp) (congrArg Progress.calls hp)
  · exact hreached _ (congrArg Progress.keepAlive hp) (congrArg Progress.calls hp)
  · obtain ⟨hkeys, -, -, hdue, -⟩ := modifyAckDeadlines_spec order it.subscriptionName dl
      it.gracePeriod pseudoNow kept n.results
    have hkeep : (it.finishRound order acks nacks pseudoNow results).iterator.keepAliveAckIDs.keys
        = kept.keys := (congrArg (fun p => p.keepAlive.keys) hp).trans hkeys
    apply RoundFacts.of_loops a.calls n.calls _ (congrArg Progress.calls hp) hak hnk
      (modifyAckDeadlines_kind order _ (ackDeadline_ne_zero hdl) _ _ _ _) has hns hkeep
    intro ackID h
    rw [hkeep]
    exact (hdue ackID h).mem_keys

end Pubsuber
