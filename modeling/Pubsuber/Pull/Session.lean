import Pubsuber.Pull.ResolvedOnce

/-!
# A subscription at work

The server with the messages of a subscription, the pull thread with one response
after the other, the user with messages of all of them, and the ack thread, around
one ack iterator. The server may give out any message that it still has, under a new
ack id each time, which covers every redelivery. It may act on a request that was
issued as often and as late as it likes: an attempt whose answer was lost counts,
whatever `make_call` has made of it. The requests of a round are issued in one step;
what others do while a round sends can as well be done before it or after it. The ack
iterator is alive all the time; after `Stop` a call on a message has no effect.
-/

namespace Pubsuber

open HashContainer StateMachine

/-- A response, and what has become of its messages. What `pull` says of the ack
iterator is out of date between two of its steps. -/
structure Response (μ : Type) where
  messages : List (AckID × μ)
  pull : PullState

namespace Response

variable {μ : Type} (r : Response μ)

def ids : List AckID := r.messages.map Prod.fst

def Over : Prop := r.pull.unregistered = [] ∧ r.pull.vec = [] ∧
  (r.pull.point = .looping ∨ r.pull.point = .unwinding)

instance : Decidable r.Over := inferInstanceAs (Decidable (_ ∧ _))

end Response

/-- `stored` are the messages that the server still has. Not in the source: what was
published and executed, and what the ack iterator was told. -/
structure Session (μ : Type) where
  iterator : IteratorState
  responses : List (Response μ)
  stored : List μ
  published : List μ
  executed : List Request
  trace : List (HashOrder × IteratorEvent)

inductive SessionEvent (μ : Type)
  -- the server
  | publish (message : μ)
  | respond (pseudoNow : TimePoint) (messages : List (AckID × μ))
  | execute (request : Request)
  /-- The pull thread or the user, on a response by its number. -/
  | client (response : ℕ) (e : PullEvent)
  | ackThread (order : HashOrder) (e : IteratorEvent)

def IteratorEvent.ofAckThread : IteratorEvent → Bool
  | mergeInput => true
  | swapPending => true
  | finishRound _ _ => true
  | _ => false

def PullEvent.ofClient : PullEvent → Bool
  | environment _ _ => false
  | _ => true

namespace Session

variable {μ : Type}

def start (name : String) (ackDist : AckDistribution) : Session μ :=
  ⟨.start (.create name ackDist), [], [], [], [], []⟩

variable (s : Session μ)

def handedOut : List (AckID × μ) := s.responses.flatMap (·.messages)

/-- The messages that an ack id stands for in a request for acknowledgement. -/
def Acknowledges (request : Request) (message : μ) : Prop :=
  request.kind = .ack ∧ ∃ ackID ∈ request.ackIDs, (ackID, message) ∈ s.handedOut

/-- The response with the ack iterator as it is. -/
def view (r : Response μ) : PullState := { r.pull with iterator := s.iterator, trace := [] }

variable [DecidableEq μ]

instance (request : Request) : DecidablePred (s.Acknowledges request) :=
  fun _ => inferInstanceAs (Decidable (_ ∧ _))

/-- Of the server it is assumed that an ack id is new when it is given out, with a message
that is still stored, and that nothing but an `Acknowledge` that was sent removes a message. -/
def step (s : Session μ) : SessionEvent μ → Option (Session μ)
  | .publish message =>
    if message ∈ s.published then none
    else some { s with
      stored := message :: s.stored
      published := message :: s.published }
  | .respond pseudoNow messages =>
    let ids := messages.map Prod.fst
    if (∀ r ∈ s.responses, r.Over) ∧ ids.Nodup ∧
        (∀ ackID ∈ ids, ackID ∉ s.handedOut.map Prod.fst) ∧
        ∀ message ∈ messages.map Prod.snd, message ∈ s.stored then
      some { s with
        responses := s.responses ++ [⟨messages, .start s.iterator pseudoNow ids⟩] }
    else none
  | .execute request =>
    if request ∈ s.iterator.calls.map Call.request then
      some { s with
        stored := s.stored.filter fun message => ¬ s.Acknowledges request message
        executed := request :: s.executed }
    else none
  | .client number e =>
    match s.responses[number]?, e.ofClient with
    | some r, true =>
      ((s.view r).step e).map fun pull =>
        { s with
          iterator := pull.iterator
          responses := s.responses.set number { r with pull }
          trace := s.trace ++ pull.trace }
    | _, _ => none
  | .ackThread order e =>
    if e.ofAckThread then
      (s.iterator.step (order, e)).map fun iterator =>
        { s with iterator, trace := s.trace ++ [(order, e)] }
    else none

end Session

/-! ## What a step of a message tells the ack iterator -/

/-- A step has told the ack iterator what its log says. -/
structure Told (s t : PullState) (told : List (HashOrder × IteratorEvent))
    (entries : List Entry) : Prop where
  trace : t.trace = s.trace ++ told
  log : t.log = s.log ++ entries
  run : run IteratorState.step s.iterator told = some t.iterator
  actions : ∀ ackID, actionsOf ackID (told.map Prod.snd) = donesFor ackID entries
  noRound : ∀ e ∈ told, ∀ i : IteratorState, i.RoundReturns e

namespace Told

variable {s t u : PullState} {told told' : List (HashOrder × IteratorEvent)}
  {entries entries' : List Entry} {order : HashOrder} {now : TimePoint}

theorem trans (h : Told s t told entries) (h' : Told t u told' entries') :
    Told s u (told ++ told') (entries ++ entries') where
  trace := by rw [h'.trace, h.trace, List.append_assoc]
  log := by rw [h'.log, h.log, List.append_assoc]
  run := by
    rw [run_append, h.run]
    exact h'.run
  actions ackID := by
    rw [List.map_append, actionsOf_append, donesFor_append, h.actions, h'.actions]
  noRound e he := (List.mem_append.mp he).elim (h.noRound e) (h'.noRound e)

theorem silent (htrace : t.trace = s.trace) (hlog : t.log = s.log ++ entries)
    (hiterator : t.iterator = s.iterator) (hnone : ∀ ackID, donesFor ackID entries = []) :
    Told s t [] entries where
  trace := by rw [htrace, List.append_nil]
  log := hlog
  run := by rw [hiterator, run_nil]
  actions ackID := (hnone ackID).symm
  noRound := by simp

theorem resolve (s : PullState) (order : HashOrder) (now : TimePoint) (m : MessageImpl)
    (action : DoneAction) :
    ∃ told, Told s (s.resolve order now m action) told (m.resolution action) := by
  unfold PullState.resolve MessageImpl.resolution
  split_ifs
  · refine ⟨_, rfl, rfl, rfl, fun ackID => ?_, by simp [IteratorState.RoundReturns]⟩
    by_cases hk : m.ackID = ackID <;> simp [actionsOf, doneCalls, donesFor, hk]
  · exact ⟨[], silent rfl (List.append_nil _).symm rfl fun _ => rfl⟩

theorem drop (s : PullState) (order : HashOrder) (now : TimePoint) (m : MessageImpl) :
    ∃ told entries, Told s (s.drop order now m) told entries := by
  obtain ⟨told, h⟩ := resolve s order now m .nack
  exact ⟨_, _, h.trans (silent rfl rfl rfl fun _ => rfl)⟩

theorem leaveCallback {p : Option AckID} {point : PullPoint}
    (h : s.leaveCallback order now p point = some t) : ∃ told entries, Told s t told entries := by
  cases p with
  | none =>
    cases h
    exact ⟨[], [], silent rfl (List.append_nil _).symm rfl fun _ => rfl⟩
  | some ackID =>
    obtain ⟨m, -, rfl⟩ := Option.map_eq_some_iff.mp h
    obtain ⟨told, entries, hdrop⟩ := drop s order now m
    exact ⟨told, entries, hdrop.trace, hdrop.log, hdrop.run, hdrop.actions, hdrop.noRound⟩

theorem of_step {e : PullEvent} (he : e.ofClient = true) (h : s.step e = some t) :
    ∃ told entries, Told s t told entries := by
  cases e with
  | addDeadlineWatcher order =>
    simp only [PullState.step] at h
    split at h
    · cases h
      exact ⟨_, _, rfl, rfl, rfl, fun _ => rfl, by simp [IteratorState.RoundReturns]⟩
    · contradiction
  | callback =>
    simp only [PullState.step] at h
    split at h
    · cases h
      exact ⟨[], _, silent rfl rfl rfl fun _ => rfl⟩
    · contradiction
  | keep =>
    simp only [PullState.step] at h
    split at h
    · cases h
      exact ⟨[], [], silent rfl (List.append_nil _).symm rfl fun _ => rfl⟩
    · contradiction
  | resolve order now ackID action =>
    obtain ⟨m, -, rfl⟩ := Option.map_eq_some_iff.mp h
    have hcalled : Told s { s with log := s.log ++ [Entry.called ackID action] } []
        [.called ackID action] := silent rfl rfl rfl fun _ => rfl
    obtain ⟨told, hresolve⟩ := resolve { s with log := s.log ++ [Entry.called ackID action] }
      order now m action
    have htold := hcalled.trans hresolve
    exact ⟨_, _, htold.trace, htold.log, htold.run, htold.actions, htold.noRound⟩
  | destroy order now ackID =>
    obtain ⟨m, -, rfl⟩ := Option.map_eq_some_iff.mp h
    exact drop s order now m
  | callbackReturn order now =>
    simp only [PullState.step] at h
    split at h
    · exact leaveCallback h
    · contradiction
  | callbackThrow order now =>
    simp only [PullState.step] at h
    split at h
    · exact leaveCallback h
    · contradiction
  | unwind order now =>
    simp only [PullState.step] at h
    split at h
    · next m vec hpoint hvec =>
      cases h
      obtain ⟨told, hresolve⟩ := resolve s order now m .nack
      exact ⟨_, _, hresolve.trans (silent rfl rfl rfl fun _ => rfl)⟩
    · contradiction
  | environment order e => contradiction

end Told

/-! ## What the user can call on -/

/-- The user calls only on messages that the callback was given. -/
structure CalledWhenHanded (s : PullState) : Prop where
  held : ∀ m ∈ s.held, m.ackID ∈ handedIn s.log
  called : ∀ ackID, callsFor ackID s.log ≠ [] → ackID ∈ handedIn s.log

theorem CalledWhenHanded.step {s t : PullState} {e : PullEvent} (h : CalledWhenHanded s)
    (hst : s.step e = some t) : CalledWhenHanded t := by
  have hkeep : ∀ entries, t.log = s.log ++ entries → ∀ k, k ∈ handedIn s.log →
      k ∈ handedIn t.log := by
    intro entries hlog k hk
    rw [hlog, handedIn_append]
    exact List.mem_append_left _ hk
  cases PullState.effect_of_step hst with
  | registered ackID receiveTime hunreg hvec hheld hlog =>
    refine ⟨fun m hm => hkeep _ hlog _ (h.held m (hheld ▸ hm)), fun k hk => ?_⟩
    rw [hlog, (unchanged_watched k ackID s.log).1] at hk
    exact hkeep _ hlog _ (h.called k hk)
  | handed m hdone hunreg hvec hheld hlog =>
    have hnew : m.ackID ∈ handedIn t.log := by simp [hlog, handedIn]
    refine ⟨fun m' hm' => ?_, fun k hk => ?_⟩
    · rcases List.mem_cons.mp (hheld ▸ hm') with rfl | hm'
      · exact hnew
      · exact hkeep _ hlog _ (h.held m' hm')
    · rw [hlog, (unchanged_handed k m.ackID s.log).1] at hk
      exact hkeep _ hlog _ (h.called k hk)
  | called m action hm hunreg hvec hheld hlog =>
    have hhanded := hkeep _ hlog _ (h.held m hm)
    refine ⟨fun m' hm' => ?_, fun k hk => ?_⟩
    · rcases List.mem_cons.mp (hheld ▸ hm') with rfl | hm'
      · exact hhanded
      · exact hkeep _ hlog _ (h.held m' (List.mem_of_mem_erase hm'))
    · by_cases hkm : k = m.ackID
      · exact hkm ▸ hhanded
      · have hother : ∀ e ∈ Entry.called m.ackID action :: m.resolution action,
            e.ackID ≠ k := by
          intro e he
          rcases List.mem_cons.mp he with rfl | he
          · exact Ne.symm hkm
          · rw [MessageImpl.ackID_of_resolution he]
            exact Ne.symm hkm
        rw [hlog, (unchanged_of_other hother s.log).1] at hk
        exact hkeep _ hlog _ (h.called k hk)
  | dropped m hm hunreg hvec hheld hlog =>
    refine ⟨fun m' hm' => hkeep _ hlog _ (h.held m' (List.mem_of_mem_erase (hheld ▸ hm'))),
      fun k hk => ?_⟩
    rw [hlog, callsFor_append, callsFor_append, m.callsFor_resolution] at hk
    exact hkeep _ hlog _ (h.called k (by simpa [callsFor] using hk))
  | unwound m hunreg hvec hheld hlog =>
    refine ⟨fun m' hm' => hkeep _ hlog _ (h.held m' (hheld ▸ hm')), fun k hk => ?_⟩
    rw [hlog, callsFor_append, callsFor_append, m.callsFor_resolution] at hk
    exact hkeep _ hlog _ (h.called k (by simpa [callsFor] using hk))
  | nothing hunreg hvec hheld hlog =>
    exact ⟨by rw [hheld, hlog]; exact h.held, by rw [hlog]; exact h.called⟩

end Pubsuber
