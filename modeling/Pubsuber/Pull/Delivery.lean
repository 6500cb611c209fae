import Pubsuber.Ack.Accounting

/-!
# The messages of one response

`SubscriptionPullIterator::Pull` from a response with status OK on, and the
messages it makes until the last of them is destroyed. The user may call `Ack`,
`Nack` and the destructor of a message whenever it can reach it; the ack
iterator is used by others all the time. Every message has an id of its own, so
the user's calls name the message by it.
-/

namespace Pubsuber

open HashContainer StateMachine

/-- `iterator` says whether the weak reference is still set. -/
structure MessageImpl where
  ackID : AckID
  receiveTime : TimePoint
  iterator : Bool
  deriving DecidableEq, Repr

/-- Where `Pull` is: in one of its loops, in the callback with what the local `p`
still owns, or destroying `vec` after an exception. -/
inductive PullPoint
  | looping
  | inCallback (p : Option AckID)
  | unwinding
  deriving DecidableEq, Repr

inductive Entry
  | watched (ackID : AckID)
  | handed (ackID : AckID)
  | called (ackID : AckID) (action : DoneAction)
  | done (ackID : AckID) (action : DoneAction)
  | destroyed (ackID : AckID)

/-- `held` are the messages out of `vec`, in any order. Not in the source: `log`
and `trace`, what has happened to the messages and to the ack iterator. -/
structure PullState where
  iterator : IteratorState
  pseudoNow : TimePoint
  unregistered : List AckID
  vec : List MessageImpl
  held : List MessageImpl
  point : PullPoint
  log : List Entry
  trace : List (HashOrder × IteratorEvent)

/-- One turn of the first loop; the start of a callback; the callback takes the
message, returns or throws; the user resolves or destroys a message; the next
element of `vec` is destroyed; somebody else uses the ack iterator. -/
inductive PullEvent
  | addDeadlineWatcher (order : HashOrder)
  | callback
  | keep
  | resolve (order : HashOrder) (now : TimePoint) (ackID : AckID) (action : DoneAction)
  | destroy (order : HashOrder) (now : TimePoint) (ackID : AckID)
  | callbackReturn (order : HashOrder) (now : TimePoint)
  | callbackThrow (order : HashOrder) (now : TimePoint)
  | unwind (order : HashOrder) (now : TimePoint)
  | environment (order : HashOrder) (e : IteratorEvent)

namespace PullState

def start (iterator : IteratorState) (pseudoNow : TimePoint) (ids : List AckID) : PullState :=
  ⟨iterator, pseudoNow, ids, [], [], .looping, [], []⟩

variable (order : HashOrder) (now : TimePoint) (s : PullState)

def live : List MessageImpl := s.vec ++ s.held

/-- The message with this id among those that the user can reach. -/
def reach (ackID : AckID) : Option MessageImpl := s.held.find? fun m => m.ackID = ackID

/-- `Ack` and `Nack`; what they do to the reference of `m` is left to the caller. -/
def resolve (m : MessageImpl) (action : DoneAction) : PullState :=
  if m.iterator then
    let sec := (now - m.receiveTime).tdiv 1000000000
    { s with
      iterator := { s.iterator with
        iterator := s.iterator.iterator.done order m.ackID sec action }
      log := s.log ++ [.done m.ackID action]
      trace := s.trace ++ [(order, .done m.ackID sec action)] }
  else s

def destruct (m : MessageImpl) : PullState :=
  let s := s.resolve order now m .nack
  { s with log := s.log ++ [.destroyed m.ackID] }

/-- A message that the user can reach is destroyed. -/
def drop (m : MessageImpl) : PullState :=
  let s := s.destruct order now m
  { s with
    held := s.held.erase m
    point := if s.point = .inCallback (some m.ackID) then .inCallback none else s.point }

/-- The local `p` goes out of scope. -/
def leaveCallback (p : Option AckID) (point : PullPoint) : Option PullState :=
  match p with
  | none => some { s with point }
  | some ackID => (s.reach ackID).map fun m => { s.drop order now m with point }

def step (s : PullState) : PullEvent → Option PullState
  | .addDeadlineWatcher order =>
    match s.point, s.unregistered with
    | .looping, ackID :: unregistered =>
      let nextAck := s.pseudoNow + kMinAckDeadline * 1000000000 - 1000000000
      some { s with
        iterator := { s.iterator with
          iterator := s.iterator.iterator.addDeadlineWatcher order ackID nextAck }
        unregistered
        vec := s.vec ++ [⟨ackID, s.pseudoNow, true⟩]
        log := s.log ++ [.watched ackID]
        trace := s.trace ++ [(order, .addDeadlineWatcher ackID nextAck)] }
    | _, _ => none
  | .callback =>
    match s.point, s.unregistered, s.vec.getLast? with
    | .looping, [], some m =>
      some { s with
        vec := s.vec.dropLast
        held := m :: s.held
        point := .inCallback (some m.ackID)
        log := s.log ++ [.handed m.ackID] }
    | _, _, _ => none
  | .keep =>
    match s.point with
    | .inCallback _ => some { s with point := .inCallback none }
    | _ => none
  | .resolve order now ackID action =>
    (s.reach ackID).map fun m =>
      let s := { s with log := s.log ++ [Entry.called ackID action] }.resolve order now m action
      { s with held := { m with iterator := false } :: s.held.erase m }
  | .destroy order now ackID => (s.reach ackID).map (s.drop order now)
  | .callbackReturn order now =>
    match s.point with
    | .inCallback p => s.leaveCallback order now p .looping
    | _ => none
  | .callbackThrow order now =>
    match s.point with
    | .inCallback p => s.leaveCallback order now p .unwinding
    | _ => none
  | .unwind order now =>
    match s.point, s.vec with
    | .unwinding, m :: vec => some { s.destruct order now m with vec }
    | _, _ => none
  | .environment order e =>
    (s.iterator.step (order, e)).map fun iterator =>
      { s with iterator, trace := s.trace ++ [(order, e)] }

end PullState

/-! ## What the log says about an id -/

def watchedIn (log : List Entry) : List AckID :=
  log.filterMap fun
    | .watched ackID => some ackID
    | _ => none

def handedIn (log : List Entry) : List AckID :=
  log.filterMap fun
    | .handed ackID => some ackID
    | _ => none

def destroyedIn (log : List Entry) : List AckID :=
  log.filterMap fun
    | .destroyed ackID => some ackID
    | _ => none

/-- The user's calls on the message with this id. -/
def callsFor (ackID : AckID) (log : List Entry) : List DoneAction :=
  log.filterMap fun
    | .called k action => if k = ackID then some action else none
    | _ => none

/-- The calls of `Done` that the message with this id made. -/
def donesFor (ackID : AckID) (log : List Entry) : List DoneAction :=
  log.filterMap fun
    | .done k action => if k = ackID then some action else none
    | _ => none

section Log

variable (ackID : AckID) (log log' : List Entry)

@[simp] theorem watchedIn_append : watchedIn (log ++ log') = watchedIn log ++ watchedIn log' :=
  List.filterMap_append

@[simp] theorem handedIn_append : handedIn (log ++ log') = handedIn log ++ handedIn log' :=
  List.filterMap_append

@[simp] theorem destroyedIn_append :
    destroyedIn (log ++ log') = destroyedIn log ++ destroyedIn log' :=
  List.filterMap_append

@[simp] theorem callsFor_append :
    callsFor ackID (log ++ log') = callsFor ackID log ++ callsFor ackID log' :=
  List.filterMap_append

@[simp] theorem donesFor_append :
    donesFor ackID (log ++ log') = donesFor ackID log ++ donesFor ackID log' :=
  List.filterMap_append

end Log

/-- What resolving a message adds to the log. -/
def MessageImpl.resolution (m : MessageImpl) (action : DoneAction) : List Entry :=
  if m.iterator then [.done m.ackID action] else []

namespace MessageImpl

variable (m : MessageImpl) (action : DoneAction)

@[simp] theorem watchedIn_resolution : watchedIn (m.resolution action) = [] := by
  unfold resolution
  split_ifs <;> rfl

@[simp] theorem handedIn_resolution : handedIn (m.resolution action) = [] := by
  unfold resolution
  split_ifs <;> rfl

@[simp] theorem destroyedIn_resolution : destroyedIn (m.resolution action) = [] := by
  unfold resolution
  split_ifs <;> rfl

@[simp] theorem callsFor_resolution (ackID : AckID) :
    callsFor ackID (m.resolution action) = [] := by
  unfold resolution
  split_ifs <;> rfl

theorem donesFor_resolution (ackID : AckID) :
    donesFor ackID (m.resolution action) =
      if m.iterator ∧ m.ackID = ackID then [action] else [] := by
  unfold resolution
  cases m.iterator with
  | false => simp [donesFor]
  | true => by_cases h : m.ackID = ackID <;> simp [donesFor, h]

end MessageImpl

namespace PullState

variable {s t : PullState} {order : HashOrder} {now : TimePoint}

section Resolve

variable (m : MessageImpl) (action : DoneAction)

@[simp] theorem resolve_unregistered :
    (s.resolve order now m action).unregistered = s.unregistered := by
  unfold resolve
  split_ifs <;> rfl

@[simp] theorem resolve_vec : (s.resolve order now m action).vec = s.vec := by
  unfold resolve
  split_ifs <;> rfl

@[simp] theorem resolve_held : (s.resolve order now m action).held = s.held := by
  unfold resolve
  split_ifs <;> rfl

@[simp] theorem resolve_log :
    (s.resolve order now m action).log = s.log ++ m.resolution action := by
  unfold resolve MessageImpl.resolution
  split_ifs <;> simp

end Resolve

inductive Effect (s t : PullState) : Prop
  | registered (ackID : AckID) (receiveTime : TimePoint)
    (hunreg : s.unregistered = ackID :: t.unregistered)
    (hvec : t.vec = s.vec ++ [⟨ackID, receiveTime, true⟩]) (hheld : t.held = s.held)
    (hlog : t.log = s.log ++ [.watched ackID])
  | handed (m : MessageImpl) (hdone : s.unregistered = [])
    (hunreg : t.unregistered = s.unregistered) (hvec : s.vec = t.vec ++ [m])
    (hheld : t.held = m :: s.held)
    (hlog : t.log = s.log ++ [.handed m.ackID])
  | called (m : MessageImpl) (action : DoneAction) (hm : m ∈ s.held)
    (hunreg : t.unregistered = s.unregistered) (hvec : t.vec = s.vec)
    (hheld : t.held = { m with iterator := false } :: s.held.erase m)
    (hlog : t.log = s.log ++ (.called m.ackID action :: m.resolution action))
  | dropped (m : MessageImpl) (hm : m ∈ s.held) (hunreg : t.unregistered = s.unregistered)
    (hvec : t.vec = s.vec) (hheld : t.held = s.held.erase m)
    (hlog : t.log = s.log ++ (m.resolution .nack ++ [.destroyed m.ackID]))
  | unwound (m : MessageImpl) (hunreg : t.unregistered = s.unregistered)
    (hvec : s.vec = m :: t.vec) (hheld : t.held = s.held)
    (hlog : t.log = s.log ++ (m.resolution .nack ++ [.destroyed m.ackID]))
  | nothing (hunreg : t.unregistered = s.unregistered) (hvec : t.vec = s.vec)
    (hheld : t.held = s.held) (hlog : t.log = s.log)

theorem mem_held_of_reach {ackID : AckID} {m : MessageImpl} (h : s.reach ackID = some m) :
    m ∈ s.held ∧ m.ackID = ackID :=
  ⟨List.mem_of_find?_eq_some h, by simpa using List.find?_some h⟩

theorem effect_of_leaveCallback {p : Option AckID} {point : PullPoint}
    (h : s.leaveCallback order now p point = some t) : s.Effect t := by
  cases p with
  | none =>
    cases h
    exact .nothing rfl rfl rfl rfl
  | some ackID =>
    obtain ⟨m, hm, rfl⟩ := Option.map_eq_some_iff.mp h
    exact .dropped m (mem_held_of_reach hm).1 (by simp [drop, destruct]) (by simp [drop, destruct])
      (by simp [drop, destruct]) (by simp [drop, destruct])

/-- Every step has one of the six effects. -/
theorem effect_of_step {e : PullEvent} (h : s.step e = some t) : s.Effect t := by
  cases e with
  | addDeadlineWatcher order =>
    simp only [step] at h
    split at h
    · next ackID unregistered hpoint hunreg =>
      cases h
      exact .registered ackID s.pseudoNow hunreg rfl rfl rfl
    · contradiction
  | callback =>
    simp only [step] at h
    split at h
    · next m hpoint hunreg hlast =>
      cases h
      obtain ⟨vec, hvec⟩ := List.getLast?_eq_some_iff.mp hlast
      exact .handed m hunreg rfl (by simp [hvec]) rfl rfl
    · contradiction
  | keep =>
    simp only [step] at h
    split at h
    · cases h
      exact .nothing rfl rfl rfl rfl
    · contradiction
  | resolve order now ackID action =>
    obtain ⟨m, hm, rfl⟩ := Option.map_eq_some_iff.mp h
    obtain ⟨hmem, rfl⟩ := mem_held_of_reach hm
    exact .called m action hmem (by simp) (by simp) (by simp) (by simp)
  | destroy order now ackID =>
    obtain ⟨m, hm, rfl⟩ := Option.map_eq_some_iff.mp h
    exact .dropped m (mem_held_of_reach hm).1 (by simp [drop, destruct]) (by simp [drop, destruct])
      (by simp [drop, destruct]) (by simp [drop, destruct])
  | callbackReturn order now =>
    simp only [step] at h
    split at h
    · exact effect_of_leaveCallback h
    · contradiction
  | callbackThrow order now =>
    simp only [step] at h
    split at h
    · exact effect_of_leaveCallback h
    · contradiction
  | unwind order now =>
    simp only [step] at h
    split at h
    · next m vec hpoint hvec =>
      cases h
      exact .unwound m (by simp [destruct]) hvec (by simp [destruct]) (by simp [destruct])
    · contradiction
  | environment order e =>
    obtain ⟨i, -, rfl⟩ := Option.map_eq_some_iff.mp h
    exact .nothing rfl rfl rfl rfl

end PullState

end Pubsuber
