import Pubsuber.Ack.History

/-!
# What a round that returns has sent

Seen from outside, a round resolves the ids of the ledger and extends the rest
of the keep-alive map that is due. The batches of a loop, the two container
types and the hash order do not show.
-/

namespace Pubsuber

open HashContainer StateMachine

/-- The requests and the keep-alive map of a round, in terms of the ledger at its
swap. -/
structure RoundSpec (before : ModAckIterator) (resolved : Ledger) (pseudoNow : TimePoint)
    (r : Round) : Prop where
  succeeded : ∀ c ∈ r.calls, c.succeeded = true
  acked_once : (idsOf .ack r.calls).Nodup
  acked : ∀ ackID, ackID ∈ idsOf .ack r.calls ↔ resolved ackID = some .ack
  nacked_once : (idsOf .nack r.calls).Nodup
  nacked : ∀ ackID, ackID ∈ idsOf .nack r.calls ↔ resolved ackID = some .nack
  extended_once : (idsOf .extension r.calls).Nodup
  extended : ∀ ackID, ackID ∈ idsOf .extension r.calls ↔
    ackID ∉ idsOf .ack r.calls ∧ ackID ∉ idsOf .nack r.calls ∧
      Due before.keepAliveAckIDs before.gracePeriod pseudoNow ackID
  deadline : ∃ dl, ackDeadline before.ackDist = some dl ∧ 0 < dl ∧
    ∀ c ∈ r.calls, c.request.kind = .extension →
      ∃ l, c.request = .modifyAckDeadline before.subscriptionName dl l
  ack_nack_disjoint : (idsOf .ack r.calls).Disjoint (idsOf .nack r.calls)
  ack_extension_disjoint : (idsOf .ack r.calls).Disjoint (idsOf .extension r.calls)
  nack_extension_disjoint : (idsOf .nack r.calls).Disjoint (idsOf .extension r.calls)
  kept : ∀ ackID, ackID ∈ r.iterator.keepAliveAckIDs.keys ↔
    ackID ∈ before.keepAliveAckIDs.keys ∧ ackID ∉ idsOf .ack r.calls ∧
      ackID ∉ idsOf .nack r.calls

theorem Due.eraseKeys_iff {c : WatchDescrContainer} {acks nacks : AckIDSet} {gracePeriod : ℤ}
    {pseudoNow : TimePoint} {ackID : AckID} :
    Due (eraseKeys (eraseKeys c acks) nacks) gracePeriod pseudoNow ackID ↔
      ackID ∉ acks.keys ∧ ackID ∉ nacks.keys ∧ Due c gracePeriod pseudoNow ackID := by
  simp only [Due, mem_eraseKeys]
  constructor
  · rintro ⟨descr, ⟨⟨hmem, ha⟩, hn⟩, hdue⟩
    exact ⟨ha, hn, descr, hmem, hdue⟩
  · rintro ⟨ha, hn, descr, hmem, hdue⟩
    exact ⟨descr, ⟨⟨hmem, ha⟩, hn⟩, hdue⟩

theorem RoundSpec.of_loops {it : ModAckIterator} {pseudoNow : TimePoint} {r : Round} {dl : ℤ}
    (acks nacks exts : List Call) (hcalls : r.calls = acks ++ (nacks ++ exts))
    (hdl : ackDeadline it.ackDist = some dl) (hsucceeded : ∀ c ∈ r.calls, c.succeeded = true)
    (hak : OfKind .ack acks) (hnk : OfKind .nack nacks) (hek : OfKind .extension exts)
    (hacks : (callIds acks).Perm it.pendingAckIDs.keys)
    (hnacks : (callIds nacks).Perm it.pendingNackIDs.keys) (honce : (callIds exts).Nodup)
    (hexts : ∀ ackID, ackID ∈ callIds exts ↔ ackID ∉ it.pendingAckIDs.keys ∧
      ackID ∉ it.pendingNackIDs.keys ∧ Due it.keepAliveAckIDs it.gracePeriod pseudoNow ackID)
    (hreq : ∀ c ∈ exts, ∃ l, c.request = .modifyAckDeadline it.subscriptionName dl l)
    (hkeep : r.iterator.keepAliveAckIDs.keys = it.keptAlive.keys) :
    RoundSpec it it.pendingAction pseudoNow r := by
  obtain ⟨hidAcks, hidNacks, hidExts⟩ := idsOf_of_kinds hak hnk hek
  rw [← hcalls] at hidAcks hidNacks hidExts
  have hamem : ∀ ackID, ackID ∈ idsOf .ack r.calls ↔ ackID ∈ it.pendingAckIDs.keys := by
    intro ackID
    rw [hidAcks, hacks.mem_iff]
  have hnmem : ∀ ackID, ackID ∈ idsOf .nack r.calls ↔ ackID ∈ it.pendingNackIDs.keys := by
    intro ackID
    rw [hidNacks, hnacks.mem_iff]
  constructor
  case succeeded => exact hsucceeded
  case acked_once =>
    rw [hidAcks, hacks.nodup_iff]
    exact it.pendingAckIDs.keys_nodup
  case acked =>
    intro ackID
    rw [hamem, ModAckIterator.pendingAction_eq_ack]
  case nacked_once =>
    rw [hidNacks, hnacks.nodup_iff]
    exact it.pendingNackIDs.keys_nodup
  case nacked =>
    intro ackID
    rw [hnmem, ModAckIterator.pendingAction_eq_nack]
  case extended_once =>
    rw [hidExts]
    exact honce
  case extended =>
    intro ackID
    rw [hamem, hnmem, hidExts, hexts]
  case deadline =>
    refine ⟨dl, hdl, ?_, ?_⟩
    · have hmin := (ackDeadline_bounds hdl).1
      unfold kMinAckDeadline at hmin
      omega
    · intro c hc hkind
      rw [hcalls] at hc
      rcases List.mem_append.mp hc with hc | hc
      · exact absurd ((hak c hc).symm.trans hkind) (by decide)
      · rcases List.mem_append.mp hc with hc | hc
        · exact absurd ((hnk c hc).symm.trans hkind) (by decide)
        · exact hreq c hc
  case ack_nack_disjoint =>
    intro ackID ha hn
    exact it.disjoint ackID ((hamem ackID).mp ha) ((hnmem ackID).mp hn)
  case ack_extension_disjoint =>
    intro ackID ha he
    rw [hidExts, hexts] at he
    exact he.1 ((hamem ackID).mp ha)
  case nack_extension_disjoint =>
    intro ackID hn he
    rw [hidExts, hexts] at he
    exact he.2.1 ((hnmem ackID).mp hn)
  case kept =>
    intro ackID
    rw [hkeep, ModAckIterator.keptAlive, mem_keys_eraseKeys, mem_keys_eraseKeys, hamem, hnmem,
      and_assoc]

namespace ModAckIterator

variable (order : HashOrder)

theorem roundSpec_of_returned (it : ModAckIterator) (pseudoNow : TimePoint)
    (results : List CallResult) {sleep : ℤ}
    (h : (it.processModAcks order pseudoNow results).ending = .returned sleep) :
    RoundSpec it it.pendingAction pseudoNow (it.processModAcks order pseudoNow results) := by
  obtain ⟨dl, hdl, ha, hn, hm, hcalls, hkeep⟩ :=
    it.processModAcks_returned order results pseudoNow h
  obtain ⟨hacks, haok⟩ := sendBatches_returned order _ (fun _ => rfl) it.pendingAckIDs _ _ ha
  obtain ⟨hnacks, hnok⟩ := sendBatches_returned order _ (fun _ => rfl) it.pendingNackIDs _ _ hn
  obtain ⟨hkeys, hreq, honce, hdue, hreturned⟩ := modifyAckDeadlines_spec order
    it.subscriptionName dl it.gracePeriod pseudoNow it.keptAlive (it.nackLoop order results).results
  obtain ⟨hmok, hall⟩ := hreturned sleep hm
  apply RoundSpec.of_loops _ _ _ hcalls hdl
  case hsucceeded =>
    intro c hc
    rw [hcalls] at hc
    rcases List.mem_append.mp hc with hc | hc
    · exact haok c hc
    · rcases List.mem_append.mp hc with hc | hc
      · exact hnok c hc
      · exact hmok c hc
  case hak => exact sendAcks_kind order _ _ _ _
  case hnk => exact sendNacks_kind order _ _ _ _
  case hek => exact modifyAckDeadlines_kind order _ (ackDeadline_ne_zero hdl) _ _ _ _
  case hacks => exact hacks
  case hnacks => exact hnacks
  case honce => exact honce
  case hexts =>
    intro ackID
    rw [← Due.eraseKeys_iff]
    exact ⟨hdue ackID, hall ackID⟩
  case hreq => exact hreq
  case hkeep =>
    rw [hkeep]
    exact hkeys

/-- After any run of an iterator, a round that returns acknowledges the ids whose
last `Done` since the swap was `Ack`, nacks those whose last `Done` was `Nack` and
extends what is due of the others. -/
theorem processModAcks_spec {name : String} {ackDist : AckDistribution}
    {events : List (HashOrder × IteratorEvent)} {s : IteratorState}
    (hrun : run IteratorState.step (.start (create name ackDist)) events = some s)
    {pseudoNow : TimePoint} {results : List CallResult} {sleep : ℤ}
    (h : (s.iterator.processModAcks order pseudoNow results).ending = .returned sleep) :
    RoundSpec s.iterator (lastDone (events.map Prod.snd)) pseudoNow
      (s.iterator.processModAcks order pseudoNow results) := by
  rw [← pendingAction_eq_lastDone rfl hrun]
  exact s.iterator.roundSpec_of_returned order pseudoNow results h

def resolvedTwice : List (HashOrder × IteratorEvent) :=
  [(.newestFirst, .addDeadlineWatcher "a" 0), (.newestFirst, .addDeadlineWatcher "b" 0),
    (.newestFirst, .addDeadlineWatcher "c" 0), (.newestFirst, .mergeInput),
    (.newestFirst, .done "a" 1 .nack), (.newestFirst, .done "b" 1 .nack),
    (.newestFirst, .done "a" 2 .ack)]

theorem processModAcks_spec_resolvedTwice :
    ∃ s, run IteratorState.step (.start (create "s" emptyDistribution)) resolvedTwice = some s ∧
      RoundSpec s.iterator (lastDone (resolvedTwice.map Prod.snd)) 0
        (s.iterator.processModAcks .newestFirst 0 [okAt 0, okAt 0, okAt 0]) :=
  ⟨_, rfl, processModAcks_spec .newestFirst rfl
    (show _ = Ending.returned kSoManyMilliseconds by decide +kernel)⟩

end ModAckIterator

end Pubsuber
