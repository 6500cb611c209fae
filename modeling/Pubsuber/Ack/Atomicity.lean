import Pubsuber.Ack.Round

/-!
# Which pending ids survive a failing round

The round moves the pending sets into locals and never puts anything back, so
an id is accounted for only if the request carrying it was reached and
succeeded. A nack whose turn never comes because an `Acknowledge` failed is not
even erased from the keep-alive map.
-/

namespace Pubsuber

open HashContainer

/-- Some successful request of this kind carried the id. -/
def Carried (calls : List Call) (kind : RequestKind) (ackID : AckID) : Prop :=
  ∃ c ∈ calls, c.succeeded = true ∧ c.request.kind = kind ∧ ackID ∈ c.request.ackIDs

instance (calls : List Call) (kind : RequestKind) (ackID : AckID) :
    Decidable (Carried calls kind ackID) :=
  inferInstanceAs (Decidable (∃ c ∈ calls, _))

/-- Either sent with its own kind of request and no longer kept alive, or still
pending of its own kind. -/
def Round.Accounts (r : Round) (kind : RequestKind) (pending : AckIDSet) (ackID : AckID) :
    Prop :=
  Xor (Carried r.calls kind ackID ∧ ackID ∉ r.iterator.keepAliveAckIDs.keys)
    (ackID ∈ pending.keys)

instance (r : Round) (kind : RequestKind) (pending : AckIDSet) (ackID : AckID) :
    Decidable (r.Accounts kind pending ackID) :=
  inferInstanceAs (Decidable ((_ ∧ _) ∨ (_ ∧ _)))

/-- Every id pending at the swap is accounted for when the round is over. -/
def ModAckIterator.Accounted (before : ModAckIterator) (r : Round) : Prop :=
  (∀ ackID ∈ before.pendingAckIDs.keys,
    r.Accounts RequestKind.ack r.iterator.pendingAckIDs ackID) ∧
  ∀ ackID ∈ before.pendingNackIDs.keys,
    r.Accounts RequestKind.nack r.iterator.pendingNackIDs ackID

instance (before : ModAckIterator) (r : Round) : Decidable (before.Accounted r) :=
  inferInstanceAs (Decidable (_ ∧ _))

/-- The results suffice for all batches of both pending sets and none of them
is a failure. -/
def ModAckIterator.PendingSent (it : ModAckIterator) (results : List CallResult) : Prop :=
  ∃ n m, (leftAfter n it.pendingAckIDs).keys = [] ∧ (leftAfter m it.pendingNackIDs).keys = [] ∧
    ∀ r ∈ results.take (n + m), resultOk r = true

theorem carried_of_mem_callIds {calls : List Call} {kind : RequestKind} {ackID : AckID}
    (hk : OfKind kind calls) (hs : ∀ c ∈ calls, c.succeeded = true)
    (h : ackID ∈ callIds calls) : Carried calls kind ackID := by
  obtain ⟨c, hc, hmem⟩ := mem_callIds.mp h
  exact ⟨c, hc, hs c hc, hk c hc, hmem⟩

theorem Carried.mono {calls calls' : List Call} {kind : RequestKind} {ackID : AckID}
    (h : Carried calls kind ackID) (hsub : calls ⊆ calls') : Carried calls' kind ackID := by
  obtain ⟨c, hc, h⟩ := h
  exact ⟨c, hsub hc, h⟩

namespace ModAckIterator

variable (order : HashOrder) (it : ModAckIterator) (pseudoNow : TimePoint)
variable (results : List CallResult)

theorem not_accounts_of_unsent {r : Round} {kind : RequestKind} {pending : AckIDSet}
    {ackID : AckID} (hpending : pending = .empty) (hun : ¬ Carried r.calls kind ackID) :
    ¬ r.Accounts kind pending ackID := by
  subst hpending
  rintro (⟨⟨h, -⟩, -⟩ | ⟨h, -⟩)
  · exact hun h
  · simp at h

theorem accounts_of_carried {r : Round} {kind : RequestKind} {pending : AckIDSet}
    {ackID : AckID} (hpending : pending = .empty) (hc : Carried r.calls kind ackID)
    (hk : ackID ∉ r.iterator.keepAliveAckIDs.keys) : r.Accounts kind pending ackID := by
  subst hpending
  exact .inl ⟨⟨hc, hk⟩, by simp⟩

theorem pendingSent_of_returned (ha : (it.ackLoop order results).ending = .returned ())
    (hn : (it.nackLoop order results).ending = .returned ()) : it.PendingSent results := by
  obtain ⟨hleft, hres, hok⟩ := sendBatches_results order _ _ it.pendingAckIDs _ results ha
  obtain ⟨hleft', -, hok'⟩ := sendBatches_results order _ _ it.pendingNackIDs _ _ hn
  refine ⟨_, _, hleft, hleft', ?_⟩
  intro r hr
  rw [List.take_add] at hr
  rcases List.mem_append.mp hr with hr | hr
  · exact hok r hr
  · rw [← show (it.ackLoop order results).results = _ from hres] at hr
    exact hok' r hr

theorem loops_of_pendingSent (h : it.PendingSent results) :
    ((it.ackLoop order results).ending = .returned () ∧
      ((it.nackLoop order results).ending = .returned () ∨
        (it.nackLoop order results).ending = .calling)) ∨
    (it.ackLoop order results).ending = .calling := by
  obtain ⟨n, m, hn, hm, hok⟩ := h
  have htake : ∀ r ∈ results.take n, resultOk r = true := fun r hr =>
    hok r ((List.take_prefix_take_left (Nat.le_add_right n m)).subset hr)
  rcases sendBatches_of_results_ok order _ (fun _ _ c => c) n it.pendingAckIDs
      (eraseKeys it.keepAliveAckIDs it.pendingAckIDs) results hn htake with ⟨ha, hlen⟩ | hc
  · refine .inl ⟨ha, ?_⟩
    have hres := (sendBatches_results order _ _ it.pendingAckIDs _ results ha).2.1
    have htake' : ∀ r ∈ (it.ackLoop order results).results.take m, resultOk r = true := by
      intro r hr
      rw [show (it.ackLoop order results).results = _ from hres] at hr
      apply hok r
      rw [List.take_drop] at hr
      exact (List.take_prefix_take_left (by omega)).subset (List.mem_of_mem_drop hr)
    rcases sendBatches_of_results_ok order _ (fun _ _ c => c) m it.pendingNackIDs
        (eraseKeys (eraseKeys it.keepAliveAckIDs it.pendingAckIDs) it.pendingNackIDs) _ hm
        htake' with ⟨h, -⟩ | h
    · exact .inl h
    · exact .inr h
  · exact .inr hc

theorem not_accounted_of_ack_unsent {r : Round}
    (hcalls : r.calls = (it.ackLoop order results).calls)
    (hpending : r.iterator.pendingAckIDs = .empty)
    (hcut : (it.ackLoop order results).ending ≠ .returned ()) : ¬ it.Accounted r := by
  intro h
  obtain ⟨ackID, hmem, hun⟩ := sendBatches_unsent order _ (fun _ => rfl) it.pendingAckIDs _ _ hcut
  refine not_accounts_of_unsent hpending ?_ (h.1 ackID hmem)
  rintro ⟨c, hc, hs, -, hid⟩
  rw [hcalls] at hc
  exact hun c hc hs hid

theorem not_accounted_of_nack_unsent {r : Round}
    (hcalls : r.calls = (it.ackLoop order results).calls ++ (it.nackLoop order results).calls)
    (hpending : r.iterator.pendingNackIDs = .empty)
    (hcut : (it.nackLoop order results).ending ≠ .returned ()) : ¬ it.Accounted r := by
  intro h
  obtain ⟨ackID, hmem, hun⟩ := sendBatches_unsent order _ (fun _ => rfl) it.pendingNackIDs _ _ hcut
  refine not_accounts_of_unsent hpending ?_ (h.2 ackID hmem)
  rintro ⟨c, hc, hs, hk, hid⟩
  rw [hcalls] at hc
  rcases List.mem_append.mp hc with hc | hc
  · -- an `Acknowledge` is not a request of a nack's kind
    rw [sendAcks_kind order _ _ _ _ c hc] at hk
    contradiction
  · exact hun c hc hs hid

theorem accounted_of_returned {r : Round} (hacks : r.iterator.pendingAckIDs = .empty)
    (hnacks : r.iterator.pendingNackIDs = .empty)
    (hkeys : ∀ ackID ∈ r.iterator.keepAliveAckIDs.keys,
      ackID ∉ it.pendingAckIDs.keys ∧ ackID ∉ it.pendingNackIDs.keys)
    (hcalls : (it.ackLoop order results).calls ⊆ r.calls ∧
      (it.nackLoop order results).calls ⊆ r.calls)
    (ha : (it.ackLoop order results).ending = .returned ())
    (hn : (it.nackLoop order results).ending = .returned ()) : it.Accounted r := by
  constructor
  · intro ackID hmem
    obtain ⟨hperm, hs⟩ := sendBatches_returned order _ (fun _ => rfl) it.pendingAckIDs _ _ ha
    refine accounts_of_carried hacks (Carried.mono ?_ hcalls.1) (fun h => (hkeys _ h).1 hmem)
    exact carried_of_mem_callIds (sendAcks_kind order _ _ _ _) hs
      (hperm.symm.subset hmem)
  · intro ackID hmem
    obtain ⟨hperm, hs⟩ := sendBatches_returned order _ (fun _ => rfl) it.pendingNackIDs _ _ hn
    refine accounts_of_carried hnacks (Carried.mono ?_ hcalls.2) (fun h => (hkeys _ h).2 hmem)
    exact carried_of_mem_callIds (sendNacks_kind order _ _ _ _) hs
      (hperm.symm.subset hmem)

/-- A round that is over accounts for everything pending at its swap exactly when
the calls for the pending sets are all successful. -/
theorem processModAcks_accounted_iff
    (h : (it.processModAcks order pseudoNow results).ending.Over) :
    it.Accounted (it.processModAcks order pseudoNow results) ↔ it.PendingSent results := by
  have hcases := it.swapPending.1.sendPending_cases order it.pendingAckIDs it.pendingNackIDs
    pseudoNow it.keepAliveAckIDs results
  simp only at hcases
  constructor
  · intro hacc
    rcases hcases with ⟨hcut, hp⟩ | ⟨-, hcut, hp⟩ | ⟨ha, hn, -, -⟩ | ⟨dl, ha, hn, -, -⟩
    · exact absurd hacc (it.not_accounted_of_ack_unsent order results
        (congrArg Progress.calls hp) rfl hcut)
    · exact absurd hacc (it.not_accounted_of_nack_unsent order results
        (congrArg Progress.calls hp) rfl hcut)
    · exact it.pendingSent_of_returned order results ha hn
    · exact it.pendingSent_of_returned order results ha hn
  · intro hsent
    have hloops := it.loops_of_pendingSent order results hsent
    rcases hcases with ⟨hcut, hp⟩ | ⟨ha, hcut, hp⟩ | ⟨-, -, -, hp⟩ | ⟨dl, ha, hn, -, hp⟩
    · have hcalling : (it.ackLoop order results).ending = .calling :=
        hloops.resolve_left fun h => hcut h.1
      have hend : (it.processModAcks order pseudoNow results).ending =
          (it.ackLoop order results).ending.map fun _ => 0 := congrArg Progress.ending hp
      rw [hend, hcalling] at h
      exact absurd h id
    · have hcalling : (it.nackLoop order results).ending = .calling := by
        rcases hloops with ⟨-, hn | hn⟩ | hc
        · exact absurd hn hcut
        · exact hn
        · exact absurd (hc.symm.trans ha) (by simp)
      have hend : (it.processModAcks order pseudoNow results).ending =
          (it.nackLoop order results).ending.map fun _ => 0 := congrArg Progress.ending hp
      rw [hend, hcalling] at h
      exact absurd h id
    · have hend : (it.processModAcks order pseudoNow results).ending = .terminated :=
        congrArg Progress.ending hp
      rw [hend] at h
      exact absurd h id
    · obtain ⟨hkeys, -⟩ := modifyAckDeadlines_spec order it.subscriptionName dl it.gracePeriod
        pseudoNow (eraseKeys (eraseKeys it.keepAliveAckIDs it.pendingAckIDs) it.pendingNackIDs)
        (it.nackLoop order results).results
      have hcalls : (it.processModAcks order pseudoNow results).calls =
          (it.ackLoop order results).calls ++ ((it.nackLoop order results).calls ++ _) :=
        congrArg Progress.calls hp
      refine it.accounted_of_returned order results rfl rfl ?_ ⟨?_, ?_⟩ ha hn
      · intro ackID hmem
        have hmem' : ackID ∈ (eraseKeys (eraseKeys it.keepAliveAckIDs it.pendingAckIDs)
            it.pendingNackIDs).keys := by
          rw [← hkeys]
          exact (congrArg (fun p => ackID ∈ p.keepAlive.keys) hp).mp hmem
        simp only [mem_keys_eraseKeys] at hmem'
        exact ⟨hmem'.1.2, hmem'.2⟩
      · rw [hcalls]
        exact List.subset_append_left _ _
      · rw [hcalls]
        exact List.Subset.trans (List.subset_append_left _ _) (List.subset_append_right _ _)

def oneOfEach : ModAckIterator :=
  (((create "s" emptyDistribution).addDeadlineWatcher .newestFirst "a" 0).addDeadlineWatcher
    .newestFirst "n" 0).mergeInput .newestFirst
    |>.done .newestFirst "a" 1 .ack |>.done .newestFirst "n" 1 .nack

/-- The failing `Acknowledge` drops the ack; the nack is dropped as well and is
kept alive from now on. -/
theorem processModAcks_loses_pending :
    let r := oneOfEach.processModAcks .newestFirst 0 [.ok (⟨.permissionDenied, "denied"⟩, 0)]
    r.ending.Over ∧ ¬ oneOfEach.Accounted r ∧
      r.iterator.pendingAckIDs.keys = [] ∧ r.iterator.pendingNackIDs.keys = [] ∧
      r.iterator.keepAliveAckIDs.keys = ["n"] := by
  decide +kernel

theorem processModAcks_accounted_iff_oneOfEach :
    oneOfEach.Accounted (oneOfEach.processModAcks .newestFirst 0 [okAt 0, okAt 1]) ∧
      ¬ oneOfEach.PendingSent [.ok (⟨.permissionDenied, "denied"⟩, 0)] := by
  constructor
  · refine (oneOfEach.processModAcks_accounted_iff .newestFirst 0 [okAt 0, okAt 1]
      (by decide +kernel)).mpr ⟨1, 1, ?_, ?_, ?_⟩
    all_goals decide +kernel
  · have hover : (oneOfEach.processModAcks .newestFirst 0
        [.ok (⟨.permissionDenied, "denied"⟩, 0)]).ending.Over := by
      decide +kernel
    exact fun h => absurd ((oneOfEach.processModAcks_accounted_iff .newestFirst 0 _ hover).mpr h)
      (by decide +kernel)

end ModAckIterator

end Pubsuber
