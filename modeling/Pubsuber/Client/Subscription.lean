import Pubsuber.Executor.Registration

/-!
# Subscription objects of one client

`SubscriptionImpl` keeps a flag of its own, the executor one active iterator for
each full name. A call on an object is followed by as many steps of both worker
threads as it takes until no queue holds anything, in any order.
-/

namespace Pubsuber

open HashContainer StateMachine

variable {κ : Type}

/-! ## The executor between two calls -/

namespace Slot

variable {π : Type}

theorem settled_call_of_worked_off (active : Option π) (c : IteratorCall π) (due : LoopStep) :
    ((⟨none, false, active⟩ : Slot π).call c).settled due =
      c.wanted.bind fun it => active.or (some it) := by
  cases c <;> cases due <;> simp [call, settled, remaining, IteratorCall.wanted]

end Slot

inductive WorkerStep
  | pull (l : LoopStep)
  | ack (l : LoopStep)

def WorkerStep.event : WorkerStep → RegistrationEvent κ
  | .pull l => .pullLoop l
  | .ack l => .ackLoop l

namespace Registration

/-- The loops of both threads take some steps. -/
def catchUp (s : Registration κ) (schedule : List (HashOrder × WorkerStep)) :
    Option (Registration κ) :=
  run step s (schedule.map fun e => (e.1, e.2.event))

def active (s : Registration κ) (subscription : SubscriptionName) :
    Option (SubscriptionPullIterator κ) :=
  s.pullThread.activeIterators.lookup subscription

theorem quietFor_pullEvents (maxPrefetch : ℤ) (schedule : List (HashOrder × WorkerStep))
    (subscription : SubscriptionName) :
    QuietFor subscription
      (pullEvents (κ := κ) maxPrefetch (schedule.map fun e => (e.1, e.2.event))) := by
  intro order c hmem
  obtain ⟨e, he, heq⟩ := List.mem_filterMap.mp hmem
  obtain ⟨⟨order', w⟩, -, rfl⟩ := List.mem_map.mp he
  cases w <;> simp [WorkerStep.event, pullEvent] at heq

theorem active_catchUp {s t : Registration κ} {schedule : List (HashOrder × WorkerStep)}
    (h : s.catchUp schedule = some t) (ht : t.Settled) (subscription : SubscriptionName) :
    ∃ due, t.active subscription = (s.pullThread.slot subscription).settled due := by
  obtain ⟨-, hp, -⟩ := run_blocks h
  have hquiet := quietFor_pullEvents (κ := κ) s.maxPrefetch schedule subscription
  refine ⟨_, .trans ?_ (s.pullThread.settled_applyAll hquiet .removeFromActive)⟩
  rw [← hp]
  refine (Slot.settled_of_worked_off (t.pullThread.slot subscription) ?_ ?_ _).symm
  · exact Unordered.lookup_eq_none.mpr (by simp [ht.pull_input])
  · simp [ThreadDataBlock.slot, ht.pull_removed]

theorem Settled.slot {s : Registration κ} (hs : s.Settled) (subscription : SubscriptionName) :
    s.pullThread.slot subscription = ⟨none, false, s.active subscription⟩ := by
  have hi : s.pullThread.inputIterators.lookup subscription = none :=
    Unordered.lookup_eq_none.mpr (by simp [hs.pull_input])
  simp [ThreadDataBlock.slot, hi, hs.pull_removed, active]

theorem active_catchUp_of_settled {s t : Registration κ}
    {schedule : List (HashOrder × WorkerStep)} (hs : s.Settled)
    (h : s.catchUp schedule = some t) (ht : t.Settled) : t.active = s.active := by
  funext subscription
  obtain ⟨due, hdue⟩ := active_catchUp h ht subscription
  rw [hdue, hs.slot, Slot.settled_of_worked_off _ rfl rfl]

/-- What a call on a settled executor has done once the threads have caught up. -/
theorem active_catchUp_call {s r t : Registration κ} {schedule : List (HashOrder × WorkerStep)}
    {order : HashOrder} {c : IteratorCall (SubscriptionPullIterator κ)} (hs : s.Settled)
    (hr : r.pullThread = s.pullThread.apply (order, .call c))
    (h : r.catchUp schedule = some t) (ht : t.Settled) :
    t.active = Function.update s.active c.subscription
      (c.wanted.bind fun it => (s.active c.subscription).or (some it)) := by
  funext subscription
  obtain ⟨due, hdue⟩ := active_catchUp h ht subscription
  rw [hdue, hr, ThreadDataBlock.slot_call, hs.slot]
  by_cases hc : c.subscription = subscription
  · subst hc
    rw [if_pos rfl, Function.update_self, Slot.settled_call_of_worked_off]
  · rw [if_neg hc, Function.update_of_ne (Ne.symm hc), Slot.settled_of_worked_off _ rfl rfl]

theorem active_catchUp_addIterator {s t : Registration κ}
    {schedule : List (HashOrder × WorkerStep)} {pullOrder ackOrder : HashOrder}
    {subscription : SubscriptionName} {callback : Option κ} {ackIterator : ModAckIteratorPtr}
    {it : SubscriptionPullIterator κ} {r : Registration κ} (hs : s.Settled)
    (hr : s.addIterator pullOrder ackOrder subscription callback ackIterator = .ok (it, r))
    (h : r.catchUp schedule = some t) (ht : t.Settled) :
    t.active = Function.update s.active subscription ((s.active subscription).or (some it)) := by
  obtain ⟨c, -, -, rfl⟩ := s.addIterator_eq_ok hr
  exact active_catchUp_call (c := .addIterator subscription it) hs rfl h ht

theorem active_catchUp_removeIterator {s t : Registration κ}
    {schedule : List (HashOrder × WorkerStep)} {subscription : SubscriptionName} (hs : s.Settled)
    (h : (s.removeIterator subscription).catchUp schedule = some t) (ht : t.Settled) :
    t.active = Function.update s.active subscription none := by
  have hr : (s.removeIterator subscription).pullThread =
      s.pullThread.apply (.newestFirst, .call (.removeIterator subscription)) := rfl
  exact active_catchUp_call hs hr h ht

end Registration

/-! ## Calls on subscription objects -/

structure SubscriptionImpl (κ : Type) where
  fullName : SubscriptionName
  receiverActive : Bool
  /-- Not in the source: what the last successful `Receive` of this object registered. -/
  lastReceived : Option (SubscriptionPullIterator κ)

/-- A client, and the subscription objects obtained from it by the order in which
they were made. A destroyed object is `none`. -/
structure Client (κ : Type) where
  project : String
  registration : Registration κ
  subscriptions : List (Option (SubscriptionImpl κ))
  nextIterator : ModAckIteratorPtr

/-- A call of `Receive` comes with the answer of `Exists`. -/
inductive ClientCall (κ : Type)
  | getSubscription (id project : String)
  | receive (subscription : ℕ) (existsResult : Except Exception Bool) (callback : Option κ)
  | stop (subscription : ℕ)
  | destroy (subscription : ℕ)

structure ClientEvent (κ : Type) where
  call : ClientCall κ
  pullOrder : HashOrder
  ackOrder : HashOrder
  schedule : List (HashOrder × WorkerStep)

namespace Client

def start (project : String) (maxPrefetch : ℤ) : Client κ :=
  ⟨project, .start maxPrefetch, [], 0⟩

variable (s : Client κ)

def object (subscription : ℕ) : Option (SubscriptionImpl κ) :=
  (s.subscriptions[subscription]?).getD none

def getSubscription (id project : String) : Except Exception (Client κ) :=
  if id = "" then
    .error ⟨"Pubsuber: topic id (non-fully qualified name) must not be empty string",
      kUninitializedCode⟩
  else
    let prj := if project = "" then s.project else project
    let subsName := "projects/" ++ prj ++ "/subscriptions/" ++ id
    .ok { s with subscriptions := s.subscriptions ++ [some ⟨subsName, false, none⟩] }

def receive (pullOrder ackOrder : HashOrder) (subscription : ℕ) (o : SubscriptionImpl κ)
    (existsResult : Except Exception Bool) (callback : Option κ) :
    Except Exception (Client κ) :=
  match existsResult with
  | .error e => .error e
  | .ok false =>
    .error ⟨"Pubsuber: Subscription " ++ o.fullName ++ " does not exit", kUninitializedCode⟩
  | .ok true =>
    if o.receiverActive then
      .error ⟨"Pubsuber: Subscription object supports only one receiver", kUninitializedCode⟩
    else
      match s.registration.addIterator pullOrder ackOrder o.fullName callback s.nextIterator with
      | .error e => .error e
      | .ok (pullIterator, registration) =>
        .ok { s with
          registration
          subscriptions := s.subscriptions.set subscription
            (some { o with receiverActive := true, lastReceived := some pullIterator })
          nextIterator := s.nextIterator + 1 }

def stop (subscription : ℕ) (o : SubscriptionImpl κ) : Except Exception (Client κ) :=
  if o.receiverActive then
    .ok { s with
      registration := s.registration.removeIterator o.fullName
      subscriptions := s.subscriptions.set subscription
        (some { o with receiverActive := false }) }
  else .error ⟨"Executor object is not set", kUninitializedCode⟩

def destroy (subscription : ℕ) (o : SubscriptionImpl κ) : Client κ :=
  { s with
    registration :=
      if o.receiverActive then s.registration.removeIterator o.fullName else s.registration
    subscriptions := s.subscriptions.set subscription none }

/-- What a call does or throws; no call is made on an object that is gone. -/
def perform (e : ClientEvent κ) : Option (Except Exception (Client κ)) :=
  match e.call with
  | .getSubscription id project => some (s.getSubscription id project)
  | .receive subscription existsResult callback =>
    (s.object subscription).map fun o =>
      s.receive e.pullOrder e.ackOrder subscription o existsResult callback
  | .stop subscription => (s.object subscription).map (s.stop subscription)
  | .destroy subscription => (s.object subscription).map fun o => .ok (s.destroy subscription o)

/-- A call that throws changes nothing. -/
def afterCall : Except Exception (Client κ) → Client κ
  | .error _ => s
  | .ok t => t

/-- A call, and then the threads until they have caught up. -/
def step (e : ClientEvent κ) : Option (Client κ) := do
  let result ← s.perform e
  let t := s.afterCall result
  let registration ← t.registration.catchUp e.schedule
  if registration.Settled then some { t with registration } else none

def active : SubscriptionName → Option (SubscriptionPullIterator κ) := s.registration.active

/-- The flag is set if and only if the iterator that pulls for the name of the
object is the one that its last successful `Receive` registered. -/
def Truthful : Prop :=
  ∀ h o, s.object h = some o →
    (o.receiverActive = true ↔ ∃ it, o.lastReceived = some it ∧ s.active o.fullName = some it)

variable {s} {t : Client κ}

theorem lt_length {h : ℕ} {o : SubscriptionImpl κ} (ho : s.object h = some o) :
    h < s.subscriptions.length := by
  by_contra hlt
  rw [object, List.getElem?_eq_none (Nat.not_lt.mp hlt)] at ho
  simp at ho

theorem object_of_set {h : ℕ} {o : SubscriptionImpl κ} {v : Option (SubscriptionImpl κ)}
    (ho : s.object h = some o) (ht : t.subscriptions = s.subscriptions.set h v) (h' : ℕ) :
    t.object h' = if h = h' then v else s.object h' := by
  rw [object, ht, List.getElem?_set]
  by_cases hh : h = h'
  · subst hh
    simp [lt_length ho]
  · simp [hh, object]

theorem object_of_eq (ht : t.subscriptions = s.subscriptions) : t.object = s.object := by
  funext h
  rw [object, object, ht]

theorem object_append {o' : Option (SubscriptionImpl κ)}
    (ht : t.subscriptions = s.subscriptions ++ [o']) {h : ℕ} {o : SubscriptionImpl κ}
    (ho : s.object h = some o) : t.object h = some o := by
  rw [object, ht, List.getElem?_append_left (lt_length ho)]
  exact ho

theorem object_of_append {o : SubscriptionImpl κ}
    (ht : t.subscriptions = s.subscriptions ++ [some o]) {h : ℕ} {o' : SubscriptionImpl κ}
    (ho : t.object h = some o') : s.object h = some o' ∨ o' = o := by
  rw [object, ht] at ho
  rcases Nat.lt_or_ge h s.subscriptions.length with hlt | hge
  · exact .inl (by simpa [object, List.getElem?_append_left hlt] using ho)
  · rw [List.getElem?_append_right hge] at ho
    cases hk : h - s.subscriptions.length with
    | zero => exact .inr (by simpa [hk, eq_comm] using ho)
    | succ k => simp [hk] at ho

/-- The checks of `Receive` let the call through. -/
def Registers (o : SubscriptionImpl κ) (existsResult : Except Exception Bool)
    (callback : Option κ) : Bool :=
  existsResult.toOption == some true && !o.receiverActive &&
    (checkAddIterator o.fullName callback).isOk

def Throws (s : Client κ) : ClientCall κ → Prop
  | .getSubscription id _ => id = ""
  | .receive h existsResult callback =>
    ∃ o, s.object h = some o ∧ Registers o existsResult callback = false
  | .stop h => ∃ o, s.object h = some o ∧ o.receiverActive = false
  | .destroy _ => False

inductive Effect (s t : Client κ) : ClientCall κ → Prop
  | threw {call : ClientCall κ} (hthrows : s.Throws call)
    (hobjects : t.subscriptions = s.subscriptions)
    (hnext : t.nextIterator = s.nextIterator) (hactive : t.active = s.active) :
    Effect s t call
  | obtained {id project : String} (fullName : SubscriptionName)
    (hobjects : t.subscriptions = s.subscriptions ++ [some ⟨fullName, false, none⟩])
    (hnext : t.nextIterator = s.nextIterator) (hactive : t.active = s.active) :
    Effect s t (.getSubscription id project)
  | received {h : ℕ} {existsResult : Except Exception Bool} {callback : Option κ}
    (o : SubscriptionImpl κ) (it : SubscriptionPullIterator κ) (ho : s.object h = some o)
    (hregisters : Registers o existsResult callback) (hit : it.ackIterator = s.nextIterator)
    (hobjects : t.subscriptions = s.subscriptions.set h
      (some { o with receiverActive := true, lastReceived := some it }))
    (hnext : t.nextIterator = s.nextIterator + 1)
    (hactive : t.active =
      Function.update s.active o.fullName ((s.active o.fullName).or (some it))) :
    Effect s t (.receive h existsResult callback)
  | stopped {h : ℕ} (o : SubscriptionImpl κ) (ho : s.object h = some o)
    (hflag : o.receiverActive = true)
    (hobjects : t.subscriptions = s.subscriptions.set h
      (some { o with receiverActive := false }))
    (hnext : t.nextIterator = s.nextIterator)
    (hactive : t.active = Function.update s.active o.fullName none) :
    Effect s t (.stop h)
  | destroyed {h : ℕ} (o : SubscriptionImpl κ) (ho : s.object h = some o)
    (hobjects : t.subscriptions = s.subscriptions.set h none)
    (hnext : t.nextIterator = s.nextIterator)
    (hactive : t.active =
      if o.receiverActive then Function.update s.active o.fullName none else s.active) :
    Effect s t (.destroy h)

theorem step_eq_some {e : ClientEvent κ} (h : s.step e = some t) :
    ∃ result r, s.perform e = some result ∧
      (s.afterCall result).registration.catchUp e.schedule = some r ∧ r.Settled ∧
      t = { s.afterCall result with registration := r } := by
  simp only [step, Option.bind_eq_bind, Option.bind_eq_some_iff] at h
  obtain ⟨result, hresult, r, hr, h⟩ := h
  split_ifs at h with hsettled
  cases h
  exact ⟨result, r, hresult, hr, hsettled, rfl⟩

theorem receive_eq_ok {pullOrder ackOrder : HashOrder} {h : ℕ} {o : SubscriptionImpl κ}
    {existsResult : Except Exception Bool} {callback : Option κ}
    (ht : s.receive pullOrder ackOrder h o existsResult callback = .ok t) :
    Registers o existsResult callback = true ∧
      ∃ it registration, s.registration.addIterator pullOrder ackOrder o.fullName callback
          s.nextIterator = .ok (it, registration) ∧
        t = { s with
          registration
          subscriptions := s.subscriptions.set h
            (some { o with receiverActive := true, lastReceived := some it })
          nextIterator := s.nextIterator + 1 } := by
  unfold receive at ht
  split at ht
  · contradiction
  · contradiction
  · split_ifs at ht with hflag
    split at ht
    · contradiction
    · next it registration hadd =>
      obtain ⟨c, hc, -, -⟩ := s.registration.addIterator_eq_ok hadd
      refine ⟨?_, it, registration, hadd, (Except.ok.inj ht).symm⟩
      simp [Registers, hflag, hc, Except.toOption, Except.isOk, Except.toBool]

theorem receive_eq_error {pullOrder ackOrder : HashOrder} {h : ℕ} {o : SubscriptionImpl κ}
    {existsResult : Except Exception Bool} {callback : Option κ} {error : Exception}
    (ht : s.receive pullOrder ackOrder h o existsResult callback = .error error) :
    Registers o existsResult callback = false := by
  unfold receive at ht
  split at ht
  · rfl
  · rfl
  · by_cases hflag : o.receiverActive = true
    · simp [Registers, hflag]
    · rw [if_neg hflag] at ht
      cases hc : checkAddIterator o.fullName callback with
      | error e => simp [Registers, hc, Except.isOk, Except.toBool]
      | ok c => simp [Registration.addIterator, hc] at ht

theorem throws_of_perform {e : ClientEvent κ} {error : Exception}
    (h : s.perform e = some (.error error)) : s.Throws e.call := by
  obtain ⟨call, pullOrder, ackOrder, schedule⟩ := e
  cases call with
  | getSubscription id project =>
    have h : s.getSubscription id project = .error error := Option.some.inj h
    by_contra hid
    simp [getSubscription, show ¬ id = "" from hid] at h
  | receive h₀ existsResult callback =>
    obtain ⟨o, ho, hu⟩ := Option.map_eq_some_iff.mp h
    exact ⟨o, ho, receive_eq_error hu⟩
  | stop h₀ =>
    obtain ⟨o, ho, hu⟩ := Option.map_eq_some_iff.mp h
    unfold stop at hu
    split_ifs at hu with hflag
    exact ⟨o, ho, Bool.not_eq_true _ ▸ hflag⟩
  | destroy h₀ =>
    obtain ⟨o, -, hu⟩ := Option.map_eq_some_iff.mp h
    cases hu

theorem effect_of_step (hs : s.registration.Settled) {e : ClientEvent κ}
    (h : s.step e = some t) : s.Effect t e.call ∧ t.registration.Settled := by
  obtain ⟨result, r, hperform, hcatch, hsettled, rfl⟩ := step_eq_some h
  refine ⟨?_, hsettled⟩
  cases result with
  | error error =>
    exact .threw (throws_of_perform hperform) rfl rfl
      (Registration.active_catchUp_of_settled hs hcatch hsettled)
  | ok u =>
    obtain ⟨call, pullOrder, ackOrder, schedule⟩ := e
    cases call with
    | getSubscription id project =>
      have hu : s.getSubscription id project = .ok u := Option.some.inj hperform
      unfold getSubscription at hu
      by_cases hid : id = ""
      · simp [hid] at hu
      rw [if_neg hid] at hu
      cases hu
      exact .obtained _ rfl rfl (Registration.active_catchUp_of_settled hs hcatch hsettled)
    | receive h existsResult callback =>
      obtain ⟨o, ho, hu⟩ := Option.map_eq_some_iff.mp hperform
      obtain ⟨hregisters, it, registration, hadd, rfl⟩ := receive_eq_ok hu
      obtain ⟨c, -, hit, -⟩ := s.registration.addIterator_eq_ok hadd
      exact .received o it ho hregisters (by rw [hit]) rfl rfl
        (Registration.active_catchUp_addIterator hs hadd hcatch hsettled)
    | stop h =>
      obtain ⟨o, ho, hu⟩ := Option.map_eq_some_iff.mp hperform
      unfold stop at hu
      split_ifs at hu with hflag
      cases hu
      exact .stopped o ho hflag rfl rfl
        (Registration.active_catchUp_removeIterator hs hcatch hsettled)
    | destroy h =>
      obtain ⟨o, ho, hu⟩ := Option.map_eq_some_iff.mp hperform
      cases hu
      refine .destroyed o ho rfl rfl ?_
      simp only [afterCall, destroy] at hcatch
      split_ifs at hcatch with hflag
      · rw [if_pos hflag]
        exact Registration.active_catchUp_removeIterator hs hcatch hsettled
      · rw [if_neg hflag]
        exact Registration.active_catchUp_of_settled hs hcatch hsettled

/-! ## Which iterator pulls for a flagged object -/

/-- The call registers nothing while another object of the same name has its flag
set. -/
def Unaliased (s : Client κ) : ClientCall κ → Prop
  | .receive h existsResult callback => ∀ o ∈ s.object h, Registers o existsResult callback →
    ∀ h' < s.subscriptions.length, h' ≠ h → ∀ o' ∈ s.object h',
      o'.fullName = o.fullName → o'.receiverActive = false
  | _ => True

instance (s : Client κ) : (call : ClientCall κ) → Decidable (Unaliased s call)
  | .receive _ _ _ => inferInstanceAs (Decidable (∀ o ∈ _, _ → ∀ h' < _, _))
  | .getSubscription _ _ => .isTrue trivial
  | .stop _ => .isTrue trivial
  | .destroy _ => .isTrue trivial

/-- What holds between any two calls: no two objects were given the same iterator. -/
structure Fresh (s : Client κ) : Prop where
  settled : s.registration.Settled
  lt_next : ∀ h o it, s.object h = some o → o.lastReceived = some it →
    it.ackIterator < s.nextIterator
  unique : ∀ h h' o o' it, s.object h = some o → s.object h' = some o' →
    o.lastReceived = some it → o'.lastReceived = some it → h = h'

/-- The iterators that pull are those of the flagged objects. -/
structure Owned (s : Client κ) : Prop where
  flagged : ∀ h o, s.object h = some o → o.receiverActive = true →
    ∃ it, o.lastReceived = some it ∧ s.active o.fullName = some it
  covered : ∀ subscription it, s.active subscription = some it →
    ∃ h o, s.object h = some o ∧ o.fullName = subscription ∧ o.receiverActive = true
  alone : ∀ h h' o o', s.object h = some o → s.object h' = some o' →
    o.receiverActive = true → o'.receiverActive = true → o.fullName = o'.fullName → h = h'

theorem Effect.lastReceived {call : ClientCall κ} (heffect : s.Effect t call) {h : ℕ}
    {o' : SubscriptionImpl κ} {it : SubscriptionPullIterator κ} (ho' : t.object h = some o')
    (hit : o'.lastReceived = some it) :
    (∃ o, s.object h = some o ∧ o.lastReceived = some it) ∨
      it.ackIterator = s.nextIterator ∧ t.nextIterator = s.nextIterator + 1 ∧
        ∃ existsResult callback, call = .receive h existsResult callback := by
  cases heffect with
  | threw hthrows hobjects =>
    rw [object_of_eq hobjects] at ho'
    exact .inl ⟨o', ho', hit⟩
  | obtained fullName hobjects =>
    rcases object_of_append hobjects ho' with ho | rfl
    · exact .inl ⟨o', ho, hit⟩
    · contradiction
  | @received h₀ _ _ o it₀ ho _ hnew hobjects hnext =>
    rw [object_of_set ho hobjects] at ho'
    split_ifs at ho' with hh
    · cases ho'
      cases hit
      exact .inr ⟨hnew, hnext, _, _, by rw [hh]⟩
    · exact .inl ⟨o', ho', hit⟩
  | @stopped h₀ o ho _ hobjects =>
    rw [object_of_set ho hobjects] at ho'
    split_ifs at ho' with hh
    · cases ho'
      exact .inl ⟨o, hh ▸ ho, hit⟩
    · exact .inl ⟨o', ho', hit⟩
  | destroyed o ho hobjects =>
    rw [object_of_set ho hobjects] at ho'
    split_ifs at ho'
    exact .inl ⟨o', ho', hit⟩

theorem Effect.nextIterator_le {call : ClientCall κ} (heffect : s.Effect t call) :
    s.nextIterator ≤ t.nextIterator := by
  cases heffect with
  | received o it ho hregisters hit hobjects hnext => exact hnext ▸ Nat.le_succ _
  | threw hthrows hobjects hnext => exact hnext.ge
  | obtained fullName hobjects hnext => exact hnext.ge
  | stopped o ho hflag hobjects hnext => exact hnext.ge
  | destroyed o ho hobjects hnext => exact hnext.ge

theorem Fresh.step (hs : s.Fresh) {e : ClientEvent κ} (h : s.step e = some t) : t.Fresh := by
  obtain ⟨heffect, hsettled⟩ := effect_of_step hs.settled h
  refine ⟨hsettled, ?_, ?_⟩
  · intro h o it ho hit
    rcases heffect.lastReceived ho hit with ⟨o₀, ho₀, hit₀⟩ | ⟨hnew, hnext, -⟩
    · exact lt_of_lt_of_le (hs.lt_next h o₀ it ho₀ hit₀) heffect.nextIterator_le
    · rw [hnew, hnext]
      exact Nat.lt_succ_self _
  · intro h h' o o' it ho ho' hit hit'
    rcases heffect.lastReceived ho hit with ⟨o₀, ho₀, hit₀⟩ | ⟨hnew, -, ex, cb, hcall⟩ <;>
      rcases heffect.lastReceived ho' hit' with ⟨o₁, ho₁, hit₁⟩ | ⟨hnew', -, ex', cb', hcall'⟩
    · exact hs.unique h h' o₀ o₁ it ho₀ ho₁ hit₀ hit₁
    · exact absurd hnew' (hs.lt_next h o₀ it ho₀ hit₀).ne
    · exact absurd hnew (hs.lt_next h' o₁ it ho₁ hit₁).ne
    · rw [hcall] at hcall'
      injection hcall'

theorem Owned.active_eq_none (hs : s.Owned) {h : ℕ} {existsResult : Except Exception Bool}
    {callback : Option κ} {o : SubscriptionImpl κ} (ho : s.object h = some o)
    (hregisters : Registers o existsResult callback = true)
    (hu : s.Unaliased (.receive h existsResult callback)) : s.active o.fullName = none := by
  by_contra hne
  obtain ⟨it, hit⟩ := Option.ne_none_iff_exists'.mp hne
  obtain ⟨h', o', ho', hname, hflag⟩ := hs.covered _ it hit
  by_cases hh : h' = h
  · -- the object itself has its flag clear
    subst hh
    rw [ho] at ho'
    cases ho'
    simp [Registers, hflag] at hregisters
  · rw [hu o ho hregisters h' (lt_length ho') hh o' ho' hname] at hflag
    contradiction

theorem Owned.released (hs : s.Owned) {h₀ : ℕ} {o₀ : SubscriptionImpl κ}
    (ho₀ : s.object h₀ = some o₀) {v : Option (SubscriptionImpl κ)}
    (hobjects : t.subscriptions = s.subscriptions.set h₀ v)
    (hv : ∀ o, v = some o → o.receiverActive = false)
    (hactive : t.active =
      if o₀.receiverActive then Function.update s.active o₀.fullName none else s.active) :
    t.Owned := by
  have hobj := object_of_set ho₀ hobjects
  have hold : ∀ {h o}, t.object h = some o → o.receiverActive = true →
      h₀ ≠ h ∧ s.object h = some o := by
    intro h o ho hflag
    rw [hobj] at ho
    split_ifs at ho with hh
    · rw [hv o ho] at hflag
      contradiction
    · exact ⟨hh, ho⟩
  refine ⟨?_, ?_, ?_⟩
  · intro h o ho hflag
    obtain ⟨hne, ho⟩ := hold ho hflag
    obtain ⟨it, hlast, hit⟩ := hs.flagged h o ho hflag
    refine ⟨it, hlast, ?_⟩
    rw [hactive]
    split_ifs with hflag₀
    · have hname : o.fullName ≠ o₀.fullName :=
        fun heq => hne (hs.alone h₀ h o₀ o ho₀ ho hflag₀ hflag heq.symm)
      rw [Function.update_of_ne hname]
      exact hit
    · exact hit
  · intro subscription it hit
    have hit' : s.active subscription = some it ∧
        (o₀.receiverActive = true → o₀.fullName ≠ subscription) := by
      rw [hactive] at hit
      split_ifs at hit with hflag₀
      · by_cases hname : subscription = o₀.fullName
        · simp [hname] at hit
        · exact ⟨by rwa [Function.update_of_ne hname] at hit, fun _ => Ne.symm hname⟩
      · exact ⟨hit, fun h => absurd h hflag₀⟩
    obtain ⟨h, o, ho, hname, hflag⟩ := hs.covered subscription it hit'.1
    refine ⟨h, o, ?_, hname, hflag⟩
    rw [hobj, if_neg]
    · exact ho
    · rintro rfl
      rw [ho₀] at ho
      cases ho
      exact hit'.2 hflag hname
  · intro h h' o o' ho ho' hflag hflag' hname
    exact hs.alone h h' o o' (hold ho hflag).2 (hold ho' hflag').2 hflag hflag' hname

theorem Owned.threw (hs : s.Owned) (hobjects : t.subscriptions = s.subscriptions)
    (hactive : t.active = s.active) : t.Owned := by
  have hobj := object_of_eq hobjects
  constructor
  · rw [hobj, hactive]
    exact hs.flagged
  · rw [hobj, hactive]
    exact hs.covered
  · rw [hobj]
    exact hs.alone

theorem Owned.obtained (hs : s.Owned) {fullName : SubscriptionName}
    (hobjects : t.subscriptions = s.subscriptions ++ [some ⟨fullName, false, none⟩])
    (hactive : t.active = s.active) : t.Owned := by
  have hold : ∀ {h o}, t.object h = some o → o.receiverActive = true → s.object h = some o := by
    intro h o ho hflag
    rcases object_of_append hobjects ho with ho | rfl
    · exact ho
    · contradiction
  constructor
  · intro h o ho hflag
    rw [hactive]
    exact hs.flagged h o (hold ho hflag) hflag
  · intro subscription it hit
    rw [hactive] at hit
    obtain ⟨h, o, ho, hname, hflag⟩ := hs.covered subscription it hit
    exact ⟨h, o, object_append hobjects ho, hname, hflag⟩
  · intro h h' o o' ho ho' hflag hflag' hname
    exact hs.alone h h' o o' (hold ho hflag) (hold ho' hflag') hflag hflag' hname

/-- An object that starts to receive is the only flagged one of its subscription. -/
theorem Owned.received (hs : s.Owned) {h₀ : ℕ} {o₀ : SubscriptionImpl κ}
    {it₀ : SubscriptionPullIterator κ} (ho₀ : s.object h₀ = some o₀)
    (hother : ∀ {h o}, h₀ ≠ h → s.object h = some o → o.receiverActive = true →
      o.fullName ≠ o₀.fullName)
    (hobjects : t.subscriptions = s.subscriptions.set h₀
      (some { o₀ with receiverActive := true, lastReceived := some it₀ }))
    (hactive : t.active = Function.update s.active o₀.fullName (some it₀)) : t.Owned := by
  have hobj := object_of_set ho₀ hobjects
  constructor
  · intro h o ho hflag
    rw [hobj] at ho
    split_ifs at ho with hh
    · cases ho
      exact ⟨it₀, rfl, by rw [hactive, Function.update_self]⟩
    · rw [hactive, Function.update_of_ne (hother hh ho hflag)]
      exact hs.flagged h o ho hflag
  · intro subscription it hit
    rw [hactive] at hit
    by_cases hname : subscription = o₀.fullName
    · refine ⟨h₀, { o₀ with receiverActive := true, lastReceived := some it₀ }, ?_,
        hname.symm, rfl⟩
      rw [hobj, if_pos rfl]
    · rw [Function.update_of_ne hname] at hit
      obtain ⟨h, o, ho, hname', hflag⟩ := hs.covered subscription it hit
      refine ⟨h, o, ?_, hname', hflag⟩
      rw [hobj, if_neg]
      · exact ho
      · rintro rfl
        rw [ho₀] at ho
        cases ho
        exact hname hname'.symm
  · intro h h' o o' ho ho' hflag hflag' hname
    rw [hobj] at ho ho'
    split_ifs at ho with hh <;> split_ifs at ho' with hh'
    · exact hh.symm.trans hh'
    · cases ho
      exact absurd hname.symm (hother hh' ho' hflag')
    · cases ho'
      exact absurd hname (hother hh ho hflag)
    · exact hs.alone h h' o o' ho ho' hflag hflag' hname

theorem Owned.step (hs : s.Owned) {call : ClientCall κ} (heffect : s.Effect t call)
    (hu : s.Unaliased call) : t.Owned := by
  cases heffect with
  | threw hthrows hobjects hnext hactive => exact hs.threw hobjects hactive
  | obtained fullName hobjects hnext hactive => exact hs.obtained hobjects hactive
  | @received h₀ existsResult callback o₀ it₀ ho₀ hregisters hnew hobjects hnext hactive =>
    have hnone := hs.active_eq_none ho₀ hregisters hu
    rw [hnone, Option.none_or] at hactive
    apply hs.received ho₀ ?_ hobjects hactive
    intro h o hne ho hflag hname
    rw [hu o₀ ho₀ hregisters h (lt_length ho) (Ne.symm hne) o ho hname] at hflag
    contradiction
  | stopped o₀ ho₀ hflag₀ hobjects hnext hactive =>
    rw [← if_pos hflag₀ (t := Function.update s.active o₀.fullName none) (e := s.active)] at hactive
    apply hs.released ho₀ hobjects ?_ hactive
    intro o ho
    cases ho
    rfl
  | destroyed o₀ ho₀ hobjects hnext hactive =>
    exact hs.released ho₀ hobjects (fun o ho => nomatch ho) hactive

theorem Truthful.of_owned (hf : s.Fresh) (hs : s.Owned) : s.Truthful := by
  intro h o ho
  refine ⟨hs.flagged h o ho, ?_⟩
  rintro ⟨it, hlast, hit⟩
  obtain ⟨h', o', ho', hname, hflag⟩ := hs.covered _ it hit
  obtain ⟨it', hlast', hit'⟩ := hs.flagged h' o' ho' hflag
  rw [hname, hit] at hit'
  cases hit'
  -- the flagged owner of the iterator is the object itself
  obtain rfl := hf.unique h h' o o' it ho ho' hlast hlast'
  rw [ho] at ho'
  cases ho'
  exact hflag

/-- A call that registers beside a flagged object of the same name leaves an object
whose flag is not truthful. -/
theorem unaliased_of_truthful (hf : s.Fresh) {e : ClientEvent κ} (h : s.step e = some t)
    (hs : s.Truthful) (ht : t.Truthful) : s.Unaliased e.call := by
  obtain ⟨heffect, -⟩ := effect_of_step hf.settled h
  generalize e.call = call at heffect
  cases heffect with
  | threw hthrows =>
    cases call with
    | receive h₀ existsResult callback =>
      obtain ⟨o, ho, hregisters⟩ := hthrows
      intro o' ho' hregisters'
      rw [ho] at ho'
      cases ho'
      rw [hregisters] at hregisters'
      contradiction
    | getSubscription id project => trivial
    | stop h₀ => trivial
    | destroy h₀ => trivial
  | @received h₀ existsResult callback o₀ it₀ ho₀ hregisters hnew hobjects hnext hactive =>
    intro o ho _ h' _ hne o' ho' hname
    rw [ho₀] at ho
    cases ho
    by_contra hflag
    -- the iterator of the other object stays active
    obtain ⟨it', hlast', hit'⟩ := (hs h' o' ho').mp (Bool.not_eq_false _ ▸ hflag)
    have hobj := object_of_set ho₀ hobjects
    obtain ⟨it, hlast, hit⟩ := (ht h₀ { o₀ with receiverActive := true, lastReceived := some it₀ }
      (by rw [hobj, if_pos rfl])).mp rfl
    cases hlast
    rw [hname] at hit'
    rw [hactive, Function.update_self, hit'] at hit
    cases hit
    exact absurd hnew (hf.lt_next h' o' _ ho' hlast').ne
  | obtained fullName => trivial
  | stopped o₀ => trivial
  | destroyed o₀ => trivial

theorem fresh_start (project : String) (maxPrefetch : ℤ) :
    (start project maxPrefetch : Client κ).Fresh := by
  refine ⟨⟨rfl, rfl, rfl, rfl, rfl⟩, ?_, ?_⟩ <;> intros <;> simp_all [start, object]

theorem owned_start (project : String) (maxPrefetch : ℤ) :
    (start project maxPrefetch : Client κ).Owned := by
  refine ⟨?_, ?_, ?_⟩ <;> intros <;>
    simp_all [start, object, active, Registration.active, Registration.start,
      ThreadDataBlock.empty]

variable {project : String} {maxPrefetch : ℤ} {events : List (ClientEvent κ)}

theorem fresh_of_run (h : run Client.step (start project maxPrefetch) events = some s) :
    s.Fresh :=
  run_invariant Fresh (fun _ _ _ hs hst => hs.step hst) h (fresh_start project maxPrefetch)

/-- In every run, all flags are truthful after every call exactly when no call
registers an object beside a flagged one of the same name. -/
theorem truthful_iff_unaliased
    (h : run Client.step (start project maxPrefetch) events = some s) :
    (∀ calls t, calls <+: events →
        run Client.step (start project maxPrefetch) calls = some t → t.Truthful) ↔
      Along Client.step (fun (s : Client κ) e => s.Unaliased e.call)
        (start project maxPrefetch) events := by
  constructor
  · intro htruthful
    refine (along_iff_of_run Client.step h).mpr fun calls e t u hcalls ht hu => ?_
    have hrun : run Client.step (start project maxPrefetch) (calls ++ [e]) = some u := by
      rw [run_concat, ht]
      exact hu
    exact unaliased_of_truthful (fresh_of_run ht) hu
      (htruthful calls t ((List.prefix_append calls [e]).trans hcalls) ht)
      (htruthful _ u hcalls hrun)
  · rintro halong calls t ⟨rest, rfl⟩ ht
    have hinv : t.Fresh ∧ t.Owned := by
      refine run_invariant_along (fun s : Client κ => s.Fresh ∧ s.Owned) ?_ ht
        ((along_append _ _ _ _ _).mp halong).1
        ⟨fresh_start project maxPrefetch, owned_start project maxPrefetch⟩
      intro s e t ⟨hf, ho⟩ hu hst
      exact ⟨hf.step hst, ho.step (effect_of_step hf.settled hst).1 hu⟩
    exact .of_owned hinv.1 hinv.2

theorem not_truthful_of_ne {h : ℕ} {o : SubscriptionImpl κ} (ho : s.object h = some o)
    (hflag : o.receiverActive = true) (hne : s.active o.fullName ≠ o.lastReceived) :
    ¬ s.Truthful := by
  intro htruthful
  obtain ⟨it, hlast, hit⟩ := (htruthful h o ho).mp hflag
  exact hne (hit.trans hlast.symm)

def bothLoops : List (HashOrder × WorkerStep) :=
  [(.newestFirst, .pull .removeFromActive), (.newestFirst, .pull .mergeInputToActive),
    (.newestFirst, .ack .removeFromActive), (.newestFirst, .ack .mergeInputToActive)]

def caughtUp (call : ClientCall ℕ) : ClientEvent ℕ := ⟨call, .newestFirst, .newestFirst, bothLoops⟩

def receivedTwice : List (ClientEvent ℕ) :=
  [caughtUp (.getSubscription "s" ""), caughtUp (.getSubscription "s" "p"),
    caughtUp (.receive 0 (.ok true) (some 1)), caughtUp (.receive 1 (.ok true) (some 2))]

/-- `Receive` of the second object returns normally and its flag is set, but the
callback of the first one is delivered to; then `Stop` of the second one
unregisters the first one. -/
theorem not_truthful :
    (∃ s o, run Client.step (start "p" 4) receivedTwice = some s ∧ ¬ s.Truthful ∧
      s.object 1 = some o ∧ o.receiverActive = true ∧
      (s.active o.fullName).map (·.callback) = some 1) ∧
    ∃ s o, run Client.step (start "p" 4) (receivedTwice ++ [caughtUp (.stop 1)]) = some s ∧
      ¬ s.Truthful ∧ s.object 0 = some o ∧ o.receiverActive = true ∧
      s.active o.fullName = none := by
  refine ⟨⟨_, _, rfl, ?_, rfl, rfl, by decide +kernel⟩,
    ⟨_, _, rfl, ?_, rfl, rfl, by decide +kernel⟩⟩
  · exact not_truthful_of_ne (h := 1) rfl rfl (by decide +kernel)
  · exact not_truthful_of_ne (h := 0) rfl rfl (by decide +kernel)

/-- A second object of the name receives once the first one has stopped. -/
def receivedInTurn : List (ClientEvent ℕ) :=
  [caughtUp (.getSubscription "s" ""), caughtUp (.getSubscription "s" "p"),
    caughtUp (.receive 0 (.ok true) (some 1)), caughtUp (.stop 0),
    caughtUp (.receive 1 (.ok true) (some 2)), caughtUp (.destroy 0)]

theorem truthful_iff_unaliased_receivedInTurn :
    ∃ s, run Client.step (start "p" 4) receivedInTurn = some s ∧
      ((∀ calls t, calls <+: receivedInTurn →
          run Client.step (start "p" 4) calls = some t → t.Truthful) ↔
        Along Client.step (fun (s : Client ℕ) e => s.Unaliased e.call) (start "p" 4)
          receivedInTurn) ∧
      Along Client.step (fun (s : Client ℕ) e => s.Unaliased e.call) (start "p" 4)
        receivedInTurn := by
  refine ⟨_, rfl, ?_, by decide +kernel⟩
  have hrun : run Client.step (start "p" 4) receivedInTurn = some _ := rfl
  exact truthful_iff_unaliased hrun

end Client

end Pubsuber
