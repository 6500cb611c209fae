import Pubsuber.Pull.Delivery

/-!
# Every message is resolved once

A message that exists has been resolved if the user has resolved it, a destroyed
one has been resolved by the first call of the user or else by its destructor.
With what is left to register these are all the messages of the response,
whatever the callback does and wherever it throws.
-/

namespace Pubsuber

open HashContainer StateMachine

def Entry.ackID : Entry → AckID
  | .watched ackID => ackID
  | .handed ackID => ackID
  | .called ackID _ => ackID
  | .done ackID _ => ackID
  | .destroyed ackID => ackID

/-- The entries say nothing about what was done with the id. -/
def Unchanged (ackID : AckID) (log log' : List Entry) : Prop :=
  callsFor ackID log' = callsFor ackID log ∧ donesFor ackID log' = donesFor ackID log

theorem unchanged_of_other {ackID : AckID} {entries : List Entry}
    (h : ∀ e ∈ entries, e.ackID ≠ ackID) (log : List Entry) :
    Unchanged ackID log (log ++ entries) := by
  constructor
  · rw [callsFor_append, List.append_right_eq_self]
    refine List.filterMap_eq_nil_iff.mpr fun e he => ?_
    cases e with
    | called k action => exact if_neg (h _ he)
    | _ => rfl
  · rw [donesFor_append, List.append_right_eq_self]
    refine List.filterMap_eq_nil_iff.mpr fun e he => ?_
    cases e with
    | done k action => exact if_neg (h _ he)
    | _ => rfl

theorem unchanged_watched (ackID k : AckID) (log : List Entry) :
    Unchanged ackID log (log ++ [.watched k]) := by
  constructor <;> simp [callsFor, donesFor]

theorem unchanged_handed (ackID k : AckID) (log : List Entry) :
    Unchanged ackID log (log ++ [.handed k]) := by
  constructor <;> simp [callsFor, donesFor]

theorem MessageImpl.ackID_of_resolution {m : MessageImpl} {action : DoneAction} {e : Entry}
    (h : e ∈ m.resolution action) : e.ackID = m.ackID := by
  unfold resolution at h
  split_ifs at h
  · rw [List.mem_singleton.mp h]
    rfl
  · simp at h

theorem prefix_of_none_handed {before log entries : List Entry} {ackID : AckID}
    (hnone : handedIn entries = []) (h : before ++ [.handed ackID] <+: log ++ entries) :
    before ++ [.handed ackID] <+: log := by
  induction entries using List.reverseRecOn with
  | nil => simpa using h
  | append_singleton entries e ih =>
    rw [handedIn_append, List.append_eq_nil_iff] at hnone
    rw [← List.append_assoc, List.prefix_concat_iff] at h
    rcases h with h | h
    · obtain ⟨-, he⟩ := List.append_inj' h rfl
      rw [← he] at hnone
      simp [handedIn] at hnone
    · exact ih hnone.1 h

def Untouched (ackID : AckID) (log : List Entry) : Prop :=
  callsFor ackID log = [] ∧ donesFor ackID log = []

/-- The message has passed on the first call of the user, if there was one. -/
structure Answered (m : MessageImpl) (log : List Entry) : Prop where
  dones : donesFor m.ackID log = (callsFor m.ackID log).head?.toList
  iterator : m.iterator = true ↔ callsFor m.ackID log = []

/-- The id was resolved once, by the first call of the user or else with a nack. -/
def Resolved (ackID : AckID) (log : List Entry) : Prop :=
  donesFor ackID log = [(callsFor ackID log).head?.getD .nack]

theorem Untouched.unchanged {ackID : AckID} {log log' : List Entry} (h : Untouched ackID log)
    (hlog : Unchanged ackID log log') : Untouched ackID log' :=
  ⟨hlog.1.trans h.1, hlog.2.trans h.2⟩

theorem Resolved.unchanged {ackID : AckID} {log log' : List Entry} (h : Resolved ackID log)
    (hlog : Unchanged ackID log log') : Resolved ackID log' := by
  rw [Resolved, hlog.1, hlog.2]
  exact h

namespace Answered

variable {m : MessageImpl} {log : List Entry}

theorem unchanged {log' : List Entry} (h : Answered m log) (hlog : Unchanged m.ackID log log') :
    Answered m log' :=
  ⟨by rw [hlog.1, hlog.2]; exact h.dones, by rw [hlog.1]; exact h.iterator⟩

theorem of_untouched {ackID : AckID} {receiveTime : TimePoint} (h : Untouched ackID log) :
    Answered ⟨ackID, receiveTime, true⟩ log :=
  ⟨by rw [h.1, h.2]; rfl, by simp [h.1]⟩

theorem called (h : Answered m log) (action : DoneAction) :
    Answered { m with iterator := false }
      (log ++ (.called m.ackID action :: m.resolution action)) := by
  have hcalls : callsFor m.ackID (log ++ (.called m.ackID action :: m.resolution action)) =
      callsFor m.ackID log ++ [action] := by
    rw [List.append_cons, callsFor_append, callsFor_append, m.callsFor_resolution, List.append_nil]
    simp [callsFor]
  have hdones : donesFor m.ackID (log ++ (.called m.ackID action :: m.resolution action)) =
      donesFor m.ackID log ++ if m.iterator then [action] else [] := by
    rw [List.append_cons, donesFor_append, donesFor_append, m.donesFor_resolution]
    simp [donesFor]
  refine ⟨?_, by simp [hcalls]⟩
  rw [hcalls, hdones, h.dones]
  cases hit : m.iterator with
  | true => simp [h.iterator.mp hit]
  | false =>
    cases hc : callsFor m.ackID log with
    | nil => simp [h.iterator.mpr hc] at hit
    | cons first rest => simp

theorem destroyed (h : Answered m log) :
    Resolved m.ackID (log ++ (m.resolution .nack ++ [.destroyed m.ackID])) := by
  have hcalls : callsFor m.ackID (log ++ (m.resolution .nack ++ [.destroyed m.ackID])) =
      callsFor m.ackID log := by
    rw [callsFor_append, callsFor_append, m.callsFor_resolution]
    simp [callsFor]
  have hdones : donesFor m.ackID (log ++ (m.resolution .nack ++ [.destroyed m.ackID])) =
      donesFor m.ackID log ++ if m.iterator then [.nack] else [] := by
    rw [donesFor_append, donesFor_append, m.donesFor_resolution]
    simp [donesFor]
  rw [Resolved, hcalls, hdones, h.dones]
  cases hit : m.iterator with
  | true => simp [h.iterator.mp hit]
  | false =>
    cases hc : callsFor m.ackID log with
    | nil => simp [h.iterator.mpr hc] at hit
    | cons first rest => simp

end Answered

/-- The messages of the response are those not registered yet, those that exist and
those destroyed. -/
structure Sound (ids : List AckID) (s : PullState) : Prop where
  accounted : (s.unregistered ++ (s.live.map (·.ackID) ++ destroyedIn s.log)).Perm ids
  watched : watchedIn s.log ++ s.unregistered = ids
  early : ∀ before ackID, before ++ [.handed ackID] <+: s.log → watchedIn before = ids
  handed : (handedIn s.log ++ (s.vec.map (·.ackID) ++ s.unregistered)).Subperm ids
  untouched : ∀ ackID ∈ s.unregistered, Untouched ackID s.log
  answered : ∀ m ∈ s.live, Answered m s.log
  resolved : ∀ ackID ∈ destroyedIn s.log, Resolved ackID s.log

namespace Sound

variable {ids : List AckID} {s t : PullState}

/-- The id of a message that exists belongs to no other message. -/
theorem others (h : Sound ids s) (hids : ids.Nodup) {m : MessageImpl} {rest : List MessageImpl}
    (hm : s.live.Perm (m :: rest)) {ackID : AckID}
    (hmem : ackID ∈ s.unregistered ∨ ackID ∈ rest.map (·.ackID) ∨ ackID ∈ destroyedIn s.log) :
    m.ackID ≠ ackID := by
  have hperm : (s.unregistered ++ (m.ackID :: rest.map (·.ackID) ++ destroyedIn s.log)).Perm ids :=
    (((hm.map (·.ackID)).append_right _).append_left _).symm.trans h.accounted
  have hnodup := (List.perm_middle.symm.trans hperm).nodup_iff.mpr hids
  rintro rfl
  exact (List.nodup_cons.mp hnodup).1 (by simpa using hmem)

/-- Entries about one message change nothing for what is about another one. -/
theorem frame (h : Sound ids s) (hids : ids.Nodup) {m : MessageImpl} {rest : List MessageImpl}
    (hm : s.live.Perm (m :: rest)) {entries : List Entry}
    (hentries : ∀ e ∈ entries, e.ackID = m.ackID) :
    (∀ ackID ∈ s.unregistered, Untouched ackID (s.log ++ entries)) ∧
      (∀ m' ∈ rest, Answered m' (s.log ++ entries)) ∧
      ∀ ackID ∈ destroyedIn s.log, Resolved ackID (s.log ++ entries) := by
  have hun : ∀ ackID, (ackID ∈ s.unregistered ∨ ackID ∈ rest.map (·.ackID) ∨
      ackID ∈ destroyedIn s.log) → Unchanged ackID s.log (s.log ++ entries) := by
    intro ackID hmem
    refine unchanged_of_other (fun e he heq => ?_) _
    exact h.others hids hm hmem ((hentries e he).symm.trans heq)
  refine ⟨fun ackID hk => (h.untouched ackID hk).unchanged (hun ackID (.inl hk)), ?_,
    fun ackID hk => (h.resolved ackID hk).unchanged (hun ackID (.inr (.inr hk)))⟩
  intro m' hm'
  exact (h.answered m' (hm.symm.subset (List.mem_cons_of_mem _ hm'))).unchanged
    (hun m'.ackID (.inr (.inl (List.mem_map_of_mem hm'))))

theorem registered (h : Sound ids s) {ackID : AckID} {receiveTime : TimePoint}
    (hunreg : s.unregistered = ackID :: t.unregistered)
    (hvec : t.vec = s.vec ++ [⟨ackID, receiveTime, true⟩]) (hheld : t.held = s.held)
    (hlog : t.log = s.log ++ [.watched ackID]) : Sound ids t := by
  have hsame : ∀ k, Unchanged k s.log t.log := fun k => hlog ▸ unchanged_watched k ackID s.log
  have hdestroyed : destroyedIn t.log = destroyedIn s.log := by
    rw [hlog, destroyedIn_append]
    exact List.append_nil _
  have hlive : t.live.Perm (⟨ackID, receiveTime, true⟩ :: s.live) := by
    rw [PullState.live, PullState.live, hvec, hheld, List.append_assoc]
    exact List.perm_middle
  constructor
  case accounted =>
    refine List.Perm.trans ?_ h.accounted
    rw [hdestroyed, hunreg]
    exact (((hlive.map (·.ackID)).append_right _).append_left _).trans List.perm_middle
  case watched =>
    rw [← h.watched, hlog, hunreg, watchedIn_append, List.append_assoc]
    rfl
  case early =>
    intro before k hprefix
    exact h.early before k (prefix_of_none_handed (by rfl) (hlog ▸ hprefix))
  case handed =>
    have := h.handed
    rw [hunreg] at this
    rw [hlog, hvec, handedIn_append]
    simpa [handedIn] using this
  case untouched =>
    intro k hk
    exact (h.untouched k (by simp [hunreg, hk])).unchanged (hsame k)
  case answered =>
    intro m hm
    rcases List.mem_cons.mp (hlive.subset hm) with rfl | hm
    · exact .of_untouched ((h.untouched ackID (by simp [hunreg])).unchanged (hsame ackID))
    · exact (h.answered m hm).unchanged (hsame m.ackID)
  case resolved =>
    intro k hk
    exact (h.resolved k (hdestroyed ▸ hk)).unchanged (hsame k)

theorem delivered (h : Sound ids s) {m : MessageImpl} (hdone : s.unregistered = [])
    (hunreg : t.unregistered = s.unregistered) (hvec : s.vec = t.vec ++ [m])
    (hheld : t.held = m :: s.held) (hlog : t.log = s.log ++ [.handed m.ackID]) : Sound ids t := by
  have hsame : ∀ k, Unchanged k s.log t.log := fun k => hlog ▸ unchanged_handed k m.ackID s.log
  have hdestroyed : destroyedIn t.log = destroyedIn s.log := by
    rw [hlog, destroyedIn_append]
    exact List.append_nil _
  have hlive : t.live = s.live := by
    rw [PullState.live, PullState.live, hvec, hheld, List.append_cons]
  constructor
  case accounted =>
    rw [hunreg, hlive, hdestroyed]
    exact h.accounted
  case watched =>
    rw [← h.watched, hlog, hunreg, watchedIn_append]
    simp [watchedIn]
  case early =>
    intro before k hprefix
    rw [hlog, List.prefix_concat_iff] at hprefix
    rcases hprefix with heq | hprefix
    · -- everything is registered when the callback starts
      obtain ⟨rfl, -⟩ := List.append_inj' heq rfl
      rw [← h.watched, hdone, List.append_nil]
    · exact h.early before k hprefix
  case handed =>
    have hperm : (handedIn t.log ++ (t.vec.map (·.ackID) ++ t.unregistered)).Perm
        (handedIn s.log ++ (s.vec.map (·.ackID) ++ s.unregistered)) := by
      rw [hlog, hunreg, hdone, hvec, handedIn_append, List.append_assoc, List.map_append,
        List.append_nil, List.append_nil]
      exact (List.perm_append_singleton m.ackID _).symm.append_left _
    exact hperm.subperm.trans h.handed
  case untouched =>
    intro k hk
    exact (h.untouched k (hunreg ▸ hk)).unchanged (hsame k)
  case answered =>
    intro m' hm'
    exact (h.answered m' (hlive ▸ hm')).unchanged (hsame m'.ackID)
  case resolved =>
    intro k hk
    exact (h.resolved k (hdestroyed ▸ hk)).unchanged (hsame k)

theorem called (h : Sound ids s) (hids : ids.Nodup) {m : MessageImpl} {action : DoneAction}
    (hm : m ∈ s.held) (hunreg : t.unregistered = s.unregistered) (hvec : t.vec = s.vec)
    (hheld : t.held = { m with iterator := false } :: s.held.erase m)
    (hlog : t.log = s.log ++ (.called m.ackID action :: m.resolution action)) : Sound ids t := by
  have hlive : s.live.Perm (m :: (s.vec ++ s.held.erase m)) :=
    ((List.perm_cons_erase hm).append_left s.vec).trans List.perm_middle
  have hlive' : t.live.Perm ({ m with iterator := false } :: (s.vec ++ s.held.erase m)) := by
    rw [PullState.live, hvec, hheld]
    exact List.perm_middle
  have hentries : ∀ e ∈ Entry.called m.ackID action :: m.resolution action,
      e.ackID = m.ackID := by
    intro e he
    rcases List.mem_cons.mp he with rfl | he
    · rfl
    · exact MessageImpl.ackID_of_resolution he
  obtain ⟨huntouched, hanswered, hresolved⟩ := h.frame hids hlive hentries
  have hdestroyed : destroyedIn t.log = destroyedIn s.log := by
    rw [hlog, List.append_cons, destroyedIn_append, destroyedIn_append, m.destroyedIn_resolution]
    simp [destroyedIn]
  have hhanded : handedIn (Entry.called m.ackID action :: m.resolution action) = [] :=
    m.handedIn_resolution action
  constructor
  case accounted =>
    refine List.Perm.trans ?_ h.accounted
    rw [hunreg, hdestroyed]
    exact (((hlive'.map (·.ackID)).trans (hlive.map (·.ackID)).symm).append_right _).append_left _
  case watched =>
    rw [← h.watched, hunreg, hlog, watchedIn_append]
    congr 1
    exact (congrArg _ (m.watchedIn_resolution action)).trans (List.append_nil _)
  case early =>
    intro before k hprefix
    exact h.early before k (prefix_of_none_handed hhanded (hlog ▸ hprefix))
  case handed =>
    rw [hunreg, hvec, hlog, handedIn_append, hhanded, List.append_nil]
    exact h.handed
  case untouched =>
    rw [hunreg, hlog]
    exact huntouched
  case answered =>
    intro m' hm'
    rw [hlog]
    rcases List.mem_cons.mp (hlive'.subset hm') with rfl | hm'
    · exact (h.answered m (hlive.symm.subset List.mem_cons_self)).called action
    · exact hanswered m' hm'
  case resolved =>
    rw [hdestroyed, hlog]
    exact hresolved

theorem destroyed (h : Sound ids s) (hids : ids.Nodup) {m : MessageImpl}
    (hlive : s.live.Perm (m :: t.live)) (hunreg : t.unregistered = s.unregistered)
    (hvec : t.vec.Sublist s.vec)
    (hlog : t.log = s.log ++ (m.resolution .nack ++ [.destroyed m.ackID])) : Sound ids t := by
  have hentries : ∀ e ∈ m.resolution .nack ++ [.destroyed m.ackID], e.ackID = m.ackID := by
    intro e he
    rcases List.mem_append.mp he with he | he
    · exact MessageImpl.ackID_of_resolution he
    · rw [List.mem_singleton.mp he]
      rfl
  obtain ⟨huntouched, hanswered, hresolved⟩ := h.frame hids hlive hentries
  have hdestroyed : destroyedIn t.log = destroyedIn s.log ++ [m.ackID] := by
    rw [hlog, destroyedIn_append, destroyedIn_append, m.destroyedIn_resolution]
    rfl
  have hhanded : handedIn (m.resolution .nack ++ [.destroyed m.ackID]) = [] := by
    rw [handedIn_append, m.handedIn_resolution]
    rfl
  constructor
  case accounted =>
    refine List.Perm.trans ?_ h.accounted
    rw [hunreg, hdestroyed]
    refine List.Perm.append_left _ ?_
    refine List.Perm.trans ?_ ((hlive.map (·.ackID)).symm.append_right _)
    rw [← List.append_assoc]
    exact List.perm_append_singleton m.ackID _
  case watched =>
    rw [← h.watched, hunreg, hlog, watchedIn_append, watchedIn_append, m.watchedIn_resolution]
    congr 1
    exact List.append_nil _
  case early =>
    intro before k hprefix
    exact h.early before k (prefix_of_none_handed hhanded (hlog ▸ hprefix))
  case handed =>
    rw [hunreg, hlog, handedIn_append, hhanded, List.append_nil]
    have hsub : (t.vec.map (·.ackID) ++ s.unregistered).Sublist
        (s.vec.map (·.ackID) ++ s.unregistered) := (hvec.map _).append (.refl _)
    exact ((List.Sublist.refl (handedIn s.log)).append hsub).subperm.trans h.handed
  case untouched =>
    rw [hunreg, hlog]
    exact huntouched
  case answered =>
    rw [hlog]
    exact hanswered
  case resolved =>
    intro k hk
    rw [hlog]
    rw [hdestroyed, List.mem_append, List.mem_singleton] at hk
    rcases hk with hk | rfl
    · exact hresolved k hk
    · exact (h.answered m (hlive.symm.subset List.mem_cons_self)).destroyed

theorem step (h : Sound ids s) (hids : ids.Nodup) {e : PullEvent} (hst : s.step e = some t) :
    Sound ids t := by
  cases PullState.effect_of_step hst with
  | registered ackID receiveTime hunreg hvec hheld hlog => exact h.registered hunreg hvec hheld hlog
  | handed m hdone hunreg hvec hheld hlog => exact h.delivered hdone hunreg hvec hheld hlog
  | called m action hm hunreg hvec hheld hlog => exact h.called hids hm hunreg hvec hheld hlog
  | dropped m hm hunreg hvec hheld hlog =>
    refine h.destroyed hids ?_ hunreg (hvec ▸ List.Sublist.refl _) hlog
    rw [PullState.live, PullState.live, hvec, hheld]
    exact ((List.perm_cons_erase hm).append_left s.vec).trans List.perm_middle
  | unwound m hunreg hvec hheld hlog =>
    refine h.destroyed hids ?_ hunreg (hvec ▸ List.sublist_cons_self m t.vec) hlog
    rw [PullState.live, PullState.live, hvec, hheld]
    rfl
  | nothing hunreg hvec hheld hlog =>
    have hlive : t.live = s.live := by rw [PullState.live, PullState.live, hvec, hheld]
    exact ⟨by rw [hunreg, hlive, hlog]; exact h.accounted, by rw [hunreg, hlog]; exact h.watched,
      by rw [hlog]; exact h.early, by rw [hunreg, hvec, hlog]; exact h.handed,
      by rw [hunreg, hlog]; exact h.untouched, by rw [hlive, hlog]; exact h.answered,
      by rw [hlog]; exact h.resolved⟩

end Sound

theorem sound_of_run {i : IteratorState} {pseudoNow : TimePoint} {ids : List AckID}
    (hids : ids.Nodup) {events : List PullEvent} {s : PullState}
    (h : run PullState.step (.start i pseudoNow ids) events = some s) : Sound ids s := by
  refine run_invariant (Sound ids) (fun _ _ _ hs hst => hs.step hids hst) h ?_
  constructor
  case accounted => simp [PullState.start, PullState.live, destroyedIn]
  case watched => rfl
  case early => simp [PullState.start]
  case handed => exact List.Subperm.refl ids
  case untouched => exact fun _ _ => ⟨rfl, rfl⟩
  case answered => simp [PullState.start, PullState.live]
  case resolved => simp [PullState.start, destroyedIn]

/-! ## What the ack iterator is told -/

/-- A round of somebody else's returns, and nobody else resolves these ids. -/
def PullState.Regular (ids : List AckID) (s : PullState) : PullEvent → Prop
  | .environment order e =>
    s.iterator.RoundReturns (order, e) ∧ ∀ ackID ∈ ids, ackID ∉ doneIds [e]
  | _ => True

instance (ids : List AckID) (s : PullState) : (e : PullEvent) → Decidable (s.Regular ids e)
  | .environment _ _ => inferInstanceAs (Decidable (_ ∧ _))
  | .addDeadlineWatcher _ => .isTrue trivial
  | .callback => .isTrue trivial
  | .keep => .isTrue trivial
  | .resolve _ _ _ _ => .isTrue trivial
  | .destroy _ _ _ => .isTrue trivial
  | .callbackReturn _ _ => .isTrue trivial
  | .callbackThrow _ _ => .isTrue trivial
  | .unwind _ _ => .isTrue trivial

/-- The ack iterator has been through the events of the trace, and was told of these
ids what their messages told it. -/
structure Traced (i : IteratorState) (ids : List AckID) (s : PullState) : Prop where
  run : run IteratorState.step i s.trace = some s.iterator
  returns : Along IteratorState.step IteratorState.RoundReturns i s.trace
  actions : ∀ ackID ∈ ids, actionsOf ackID (s.trace.map Prod.snd) = donesFor ackID s.log

namespace Traced

variable {i : IteratorState} {ids : List AckID} {s t : PullState}

theorem feed (h : Traced i ids s) {e : HashOrder × IteratorEvent} {entries : List Entry}
    (htrace : t.trace = s.trace ++ [e]) (hlog : t.log = s.log ++ entries)
    (hstep : s.iterator.step e = some t.iterator) (hr : s.iterator.RoundReturns e)
    (hactions : ∀ ackID ∈ ids, actionsOf ackID [e.2] = donesFor ackID entries) :
    Traced i ids t := by
  refine ⟨?_, ?_, ?_⟩
  · rw [htrace, run_concat, h.run]
    exact hstep
  · rw [htrace]
    refine (along_append _ _ _ _ _).mpr ⟨h.returns, fun u hu => ⟨?_, fun _ _ => trivial⟩⟩
    rw [h.run] at hu
    cases hu
    exact hr
  · intro ackID hmem
    rw [htrace, hlog, List.map_append, actionsOf_append, donesFor_append, h.actions ackID hmem,
      ← hactions ackID hmem]
    rfl

theorem log (h : Traced i ids s) {entries : List Entry} (htrace : t.trace = s.trace)
    (hlog : t.log = s.log ++ entries) (hiterator : t.iterator = s.iterator)
    (hnone : ∀ ackID, donesFor ackID entries = []) : Traced i ids t := by
  refine ⟨by rw [htrace, hiterator]; exact h.run, by rw [htrace]; exact h.returns, ?_⟩
  intro ackID hmem
  rw [htrace, hlog, donesFor_append, hnone, List.append_nil]
  exact h.actions ackID hmem

variable {order : HashOrder} {now : TimePoint}

theorem resolve (h : Traced i ids s) (m : MessageImpl) (action : DoneAction) :
    Traced i ids (s.resolve order now m action) := by
  unfold PullState.resolve
  split_ifs
  · refine h.feed rfl rfl rfl trivial fun ackID _ => ?_
    by_cases hk : m.ackID = ackID <;> simp [actionsOf, doneCalls, donesFor, hk]
  · exact h

theorem destruct (h : Traced i ids s) (m : MessageImpl) :
    Traced i ids (s.destruct order now m) :=
  (h.resolve m .nack).log rfl rfl rfl fun _ => rfl

theorem leaveCallback (h : Traced i ids s) {p : Option AckID} {point : PullPoint}
    (hst : s.leaveCallback order now p point = some t) : Traced i ids t := by
  cases p with
  | none =>
    cases hst
    exact h.log rfl (List.append_nil _).symm rfl fun _ => rfl
  | some ackID =>
    obtain ⟨m, -, rfl⟩ := Option.map_eq_some_iff.mp hst
    exact (h.destruct m).log rfl (List.append_nil _).symm rfl fun _ => rfl

theorem step (h : Traced i ids s) {e : PullEvent} (hr : s.Regular ids e)
    (hst : s.step e = some t) : Traced i ids t := by
  cases e with
  | addDeadlineWatcher order =>
    simp only [PullState.step] at hst
    split at hst
    · cases hst
      exact h.feed rfl rfl rfl trivial fun _ _ => rfl
    · contradiction
  | callback =>
    simp only [PullState.step] at hst
    split at hst
    · cases hst
      exact h.log rfl rfl rfl fun _ => rfl
    · contradiction
  | keep =>
    simp only [PullState.step] at hst
    split at hst
    · cases hst
      exact h.log rfl (List.append_nil _).symm rfl fun _ => rfl
    · contradiction
  | resolve order now ackID action =>
    obtain ⟨m, -, rfl⟩ := Option.map_eq_some_iff.mp hst
    have hcalled : Traced i ids { s with log := s.log ++ [Entry.called ackID action] } :=
      h.log rfl rfl rfl fun _ => rfl
    exact (hcalled.resolve m action).log rfl (List.append_nil _).symm rfl fun _ => rfl
  | destroy order now ackID =>
    obtain ⟨m, -, rfl⟩ := Option.map_eq_some_iff.mp hst
    exact (h.destruct m).log rfl (List.append_nil _).symm rfl fun _ => rfl
  | callbackReturn order now =>
    simp only [PullState.step] at hst
    split at hst
    · exact h.leaveCallback hst
    · contradiction
  | callbackThrow order now =>
    simp only [PullState.step] at hst
    split at hst
    · exact h.leaveCallback hst
    · contradiction
  | unwind order now =>
    simp only [PullState.step] at hst
    split at hst
    · cases hst
      exact (h.destruct _).log rfl (List.append_nil _).symm rfl fun _ => rfl
    · contradiction
  | environment order e =>
    obtain ⟨iterator, hiterator, rfl⟩ := Option.map_eq_some_iff.mp hst
    refine h.feed rfl (List.append_nil _).symm hiterator hr.1 fun ackID hmem => ?_
    exact actionsOf_eq_nil.mpr (hr.2 ackID hmem)

end Traced

theorem traced_of_run {i : IteratorState} {pseudoNow : TimePoint} {ids : List AckID}
    {events : List PullEvent} {s : PullState}
    (h : run PullState.step (.start i pseudoNow ids) events = some s)
    (hr : Along PullState.step (PullState.Regular ids) (.start i pseudoNow ids) events) :
    Traced i ids s := by
  refine run_invariant_along (Traced i ids) (fun _ _ _ hs hr hst => hs.step hr hst) h hr ?_
  exact ⟨rfl, trivial, fun _ _ => rfl⟩

/-! ## Exactly once -/

/-- What `Pull` and the messages of a response have done by some point. -/
structure ResolvedOnce (ids : List AckID) (s : PullState) : Prop where
  watched_first : ∀ before ackID, before ++ [.handed ackID] <+: s.log → watchedIn before = ids
  watched_once : watchedIn s.log <+: ids
  handed_once : (handedIn s.log).Nodup
  handed_mem : ∀ ackID ∈ handedIn s.log, ackID ∈ ids
  destroyed : ∀ ackID ∈ destroyedIn s.log, Resolved ackID s.log
  all_destroyed : s.unregistered = [] → s.live = [] → ∀ ackID ∈ ids, Resolved ackID s.log

/-- What the first call of the user comes to, or the destructor. -/
def firstAction (ackID : AckID) (log : List Entry) : DoneAction :=
  (callsFor ackID log).head?.getD .nack

/-- However the ack iterator goes on, an id is pending, taken or sent once for its
action, and after the next swap and the rest of the round it is sent once. -/
def SentOnce (ackID : AckID) (action : DoneAction) (i : IteratorState) : Prop :=
  ∀ more t, run IteratorState.step i more = some t →
    Along IteratorState.step IteratorState.RoundReturns i more →
    ackID ∉ doneIds (more.map Prod.snd) →
    (∀ action', t.copies action' ackID = if action' = action then 1 else 0) ∧
      (.swapPending ∈ more.map Prod.snd → t.phase = .idle →
        ∀ action', (idsOf action'.kind t.calls).count ackID = if action' = action then 1 else 0)

theorem Sound.resolvedOnce {ids : List AckID} {s : PullState} (h : Sound ids s)
    (hids : ids.Nodup) : ResolvedOnce ids s where
  watched_first := h.early
  watched_once := ⟨s.unregistered, h.watched⟩
  handed_once := by
    obtain ⟨l, hl, hsub⟩ := h.handed
    exact (List.nodup_append.mp (hl.nodup_iff.mp (hsub.nodup hids))).1
  handed_mem ackID hmem := h.handed.subset (List.mem_append_left _ hmem)
  destroyed := h.resolved
  all_destroyed hunreg hlive ackID hmem := by
    refine h.resolved ackID ?_
    have := h.accounted.symm.subset hmem
    simpa [hunreg, hlive] using this

/-- Every message of a response is resolved once, by the first `Ack` or `Nack` of the
user or else by its destructor, and its id is sent once. -/
theorem resolvedOnce_of_run {name : String} {ackDist : AckDistribution}
    {past : List (HashOrder × IteratorEvent)} {i : IteratorState}
    (hpast : run IteratorState.step (.start (.create name ackDist)) past = some i)
    {pseudoNow : TimePoint} {ids : List AckID} (hids : ids.Nodup) {events : List PullEvent}
    {s : PullState} (h : run PullState.step (.start i pseudoNow ids) events = some s) :
    ResolvedOnce ids s ∧
      (Along PullState.step (PullState.Regular ids) (.start i pseudoNow ids) events →
        s.unregistered = [] → s.live = [] →
        ∀ ackID ∈ ids, ackID ∉ doneIds (past.map Prod.snd) →
          SentOnce ackID (firstAction ackID s.log) s.iterator) := by
  have hsound := sound_of_run hids h
  refine ⟨hsound.resolvedOnce hids, ?_⟩
  intro hregular hunreg hlive ackID hmem hnew more t hmore hreturns hdone
  have htraced := traced_of_run h hregular
  have hactions : actionsOf ackID ((s.trace ++ more).map Prod.snd) = [firstAction ackID s.log] := by
    rw [List.map_append, actionsOf_append, htraced.actions ackID hmem, actionsOf_eq_nil.mpr hdone,
      List.append_nil]
    exact (hsound.resolvedOnce hids).all_destroyed hunreg hlive ackID hmem
  have hrun : run IteratorState.step i (s.trace ++ more) = some t := by
    rw [run_append, htraced.run]
    exact hmore
  have halong : Along IteratorState.step IteratorState.RoundReturns i (s.trace ++ more) := by
    refine (along_append _ _ _ _ _).mpr ⟨htraced.returns, fun u hu => ?_⟩
    rw [htraced.run] at hu
    cases hu
    exact hreturns
  have hcopies : ∀ action, t.copies action ackID =
      if action = firstAction ackID s.log then 1 else 0 := by
    intro action
    rw [IteratorState.copies_of_run hrun halong (IteratorState.copies_eq_zero hpast hnew)
      (by rw [hactions]; exact le_rfl), hactions]
    generalize firstAction ackID s.log = first
    cases action <;> cases first <;> rfl
  refine ⟨hcopies, fun hswap hidle action => ?_⟩
  -- nothing is taken between rounds, and nothing pending has survived the swap
  have hlocal : t.phase.localIds action = [] := by
    rw [hidle]
    cases action <;> rfl
  have hpending := IteratorState.not_pending_of_swapped hmore hdone hswap action
  rw [← hcopies action, IteratorState.copies, hlocal, List.count_nil,
    List.count_eq_zero_of_not_mem hpending]
  rfl

/-- The callback acknowledges "c", nacks it and keeps it; it throws on "b", and "a" is
never handed over. A round runs meanwhile, and "c" is destroyed in the end. -/
def thrown : List PullEvent :=
  [.addDeadlineWatcher .newestFirst, .addDeadlineWatcher .newestFirst,
    .addDeadlineWatcher .newestFirst, .callback, .resolve .newestFirst 1 "c" .ack,
    .resolve .newestFirst 1 "c" .nack, .keep, .callbackReturn .newestFirst 1, .callback,
    .environment .newestFirst .swapPending, .callbackThrow .newestFirst 2,
    .unwind .newestFirst 2, .environment .newestFirst (.finishRound 0 [okAt 0, okAt 0]),
    .destroy .newestFirst 3 "c"]

theorem resolvedOnce_of_run_thrown :
    ∃ s, run PullState.step (.start (.start (.create "s" emptyDistribution)) 0 ["a", "b", "c"])
        thrown = some s ∧
      ResolvedOnce ["a", "b", "c"] s ∧ SentOnce "c" .ack s.iterator ∧
      SentOnce "a" .nack s.iterator := by
  have heval : (run PullState.step
      (.start (.start (.create "s" emptyDistribution)) 0 ["a", "b", "c"]) thrown).map
      (fun s => s.unregistered == [] && s.live == [] && firstAction "c" s.log == .ack &&
        firstAction "a" s.log == .nack) = some true := by decide +kernel
  obtain ⟨s, hrun, hs⟩ := Option.map_eq_some_iff.mp heval
  simp only [Bool.and_eq_true, beq_iff_eq] at hs
  obtain ⟨⟨⟨hunreg, hlive⟩, hack⟩, hnack⟩ := hs
  have hpast : run IteratorState.step (.start (.create "s" emptyDistribution)) [] = some _ :=
    run_nil _ _
  obtain ⟨honce, hsent⟩ := resolvedOnce_of_run hpast (by decide) hrun
  have hsent := hsent (by decide +kernel) hunreg hlive
  exact ⟨s, hrun, honce, hack ▸ hsent "c" (by simp) (by simp [doneIds, doneCalls]),
    hnack ▸ hsent "a" (by simp) (by simp [doneIds, doneCalls])⟩

end Pubsuber
