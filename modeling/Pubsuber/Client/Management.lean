import Pubsuber.Retry.Trace

/-!
# Managing topics and subscriptions

A resource is created, deleted or looked up with one `make_call`. The server may
act on an attempt whose answer the client never sees; the next attempt then finds
what the one before it has done.
-/

namespace Pubsuber

/-! ## The server -/

inductive Operation
  | get
  | create
  | delete
  deriving DecidableEq, Repr

/-- What the server makes of an operation on a resource that exists or does not. -/
def Operation.execute : Operation → Bool → StatusCode × Bool
  | .get, true => (.ok, true)
  | .get, false => (.notFound, false)
  | .create, true => (.alreadyExists, true)
  | .create, false => (.ok, true)
  | .delete, true => (.ok, false)
  | .delete, false => (.notFound, false)

/-- What becomes of an attempt. An attempt that fails for the client may have been
executed all the same. -/
inductive Fate
  | answered (message : String)
  | deadlineExceeded (message : String) (executed : Bool)
  | unavailable (message : String) (executed : Bool)
  deriving DecidableEq, Repr

namespace Fate

def executed : Fate → Bool
  | answered _ => true
  | deadlineExceeded _ executed => executed
  | unavailable _ executed => executed

def lost : Fate → Bool
  | answered _ => false
  | deadlineExceeded _ _ => true
  | unavailable _ _ => true

def status (op : Operation) (existing : Bool) : Fate → Status
  | answered message => ⟨(op.execute existing).1, message⟩
  | deadlineExceeded message _ => ⟨.deadlineExceeded, message⟩
  | unavailable message _ => ⟨.unavailable, message⟩

def stateAfter (op : Operation) (existing : Bool) (fate : Fate) : Bool :=
  if fate.executed then (op.execute existing).2 else existing

theorem retriable_status (op : Operation) (existing : Bool) (fate : Fate) :
    (fate.status op existing).code.retriable = fate.lost := by
  cases fate <;> cases op <;> cases existing <;> rfl

end Fate

/-- An attempt by what becomes of it at the server. -/
structure ServedAttempt where
  checkTime : TimePoint
  systemTime : ℤ
  next : TimePoint
  sample : ExpoBackoff.Sample
  fate : Fate

def ServedAttempt.attempt (a : ServedAttempt) (op : Operation) (existing : Bool) : Attempt where
  checkTime := a.checkTime
  systemTime := a.systemTime
  next := a.next
  status := a.fate.status op existing
  sample := a.sample

namespace Operation

variable (op : Operation)

def existsAfter (existed : Bool) (served : List ServedAttempt) : Bool :=
  served.foldl (fun existing a => a.fate.stateAfter op existing) existed

/-- Attempts on a server on which no other client touches the resource. -/
def attemptsOn : Bool → List ServedAttempt → List Attempt
  | _, [] => []
  | existing, a :: as =>
    a.attempt op existing :: attemptsOn (a.fate.stateAfter op existing) as

theorem execute_execute (existing : Bool) :
    (op.execute (op.execute existing).2).2 = (op.execute existing).2 := by
  cases op <;> cases existing <;> rfl

theorem existsAfter_eq (existed : Bool) (served : List ServedAttempt) :
    op.existsAfter existed served =
      if served.any (·.fate.executed) then (op.execute existed).2 else existed := by
  induction served generalizing existed with
  | nil => rfl
  | cons a as ih =>
    have hstep : op.existsAfter existed (a :: as) =
        op.existsAfter (a.fate.stateAfter op existed) as := rfl
    rw [hstep, ih, Fate.stateAfter, List.any_cons]
    cases a.fate.executed with
    | false => simp
    | true =>
      rw [if_pos rfl, execute_execute, ite_self, Bool.true_or, if_pos rfl]

theorem attemptsOn_eq_append {existed : Bool} {served : List ServedAttempt}
    {before rest : List Attempt} {a : Attempt}
    (h : op.attemptsOn existed served = before ++ a :: rest) :
    ∃ earlier last later, served = earlier ++ last :: later ∧
      before = op.attemptsOn existed earlier ∧
      a = last.attempt op (op.existsAfter existed earlier) := by
  induction before generalizing existed served with
  | nil =>
    cases served with
    | nil => contradiction
    | cons head served =>
      obtain ⟨rfl, -⟩ := List.cons_eq_cons.mp h
      exact ⟨[], head, served, rfl, rfl, rfl⟩
  | cons b before ih =>
    cases served with
    | nil => contradiction
    | cons head served =>
      obtain ⟨rfl, htail⟩ := List.cons_eq_cons.mp h
      obtain ⟨earlier, last, later, rfl, rfl, rfl⟩ := ih htail
      exact ⟨head :: earlier, last, later, rfl, rfl, rfl⟩

theorem retriable_attemptsOn (existed : Bool) (served : List ServedAttempt) :
    (∀ b ∈ op.attemptsOn existed served, b.retriable = true) ↔
      ∀ a ∈ served, a.fate.lost = true := by
  induction served generalizing existed with
  | nil => simp [attemptsOn]
  | cons a as ih =>
    rw [attemptsOn, List.forall_mem_cons, List.forall_mem_cons, ih]
    have : (a.attempt op existed).retriable = a.fate.lost := a.fate.retriable_status op existed
    rw [this]

theorem length_attemptsOn (existed : Bool) (served : List ServedAttempt) :
    (op.attemptsOn existed served).length = served.length := by
  induction served generalizing existed with
  | nil => rfl
  | cons a as ih => rw [attemptsOn, List.length_cons, ih, List.length_cons]

end Operation

/-! ## The client -/

def requestError (request : String) (status : Status) : Exception where
  what := "Pubsuber: " ++ request ++ " failed with error " ++ toString status.code.toNat ++
    ": " ++ status.message
  code := status.code.toNat

/-- What follows a `make_call` that returns. -/
def Ending.andThen {α β : Type} (call : Ending α) (f : α → Ending β) : Ending β :=
  match call with
  | .returned a => f a
  | .threw e => .threw e
  | .terminated => .terminated
  | .calling => .calling

section Calls

variable (request : String) (call : Ending (Status × TimePoint))

def existsCall : Ending Bool :=
  call.andThen fun (status, _) =>
    match status.code with
    | .notFound => .returned false
    | .ok => .returned true
    | _ => .threw (requestError request status)

def createCall : Ending Unit :=
  call.andThen fun (status, _) =>
    match status.code with
    | .ok => .returned ()
    | _ => .threw (requestError request status)

/-- `Delete` of a topic or a subscription; a resource that is not found is no error. -/
def deleteCall : Ending Unit :=
  call.andThen fun (status, _) =>
    match status.code with
    | .notFound => .returned ()
    | .ok => .returned ()
    | _ => .threw (requestError request status)

def topicExists : Ending Bool := existsCall "GetTopicRequest request" call

def createTopic : Ending Unit := createCall "CreateTopic request" call

def deleteTopic : Ending Unit := deleteCall "DeleteTopic request" call

def subscriptionExists : Ending Bool := existsCall "GetSubscription request" call

def createSubscription : Ending Unit := createCall "CreateSubscription request" call

def deleteSubscription : Ending Unit := deleteCall "DeleteSubscription request" call

end Calls

/-! ## One call or many -/

section Run

variable (name : String) (countPolicy : RetryCountPolicy) (timePolicy : MaxRetryTimePolicy)
  (backoffPolicy : ExponentialBackoffPolicy) (start : TimePoint) (op : Operation)
  (existed : Bool) (served : List ServedAttempt)

def callOn : Trace :=
  makeCall name countPolicy timePolicy start backoffPolicy (op.attemptsOn existed served)

/-- The resource after the call: only the attempts that were issued reach the server. -/
def existsAfterCall : Bool :=
  op.existsAfter existed (served.take
    (callOn name countPolicy timePolicy backoffPolicy start op existed served).calls.length)

/-- What a caller sees when an operation is one atomic call. -/
def LooksAtomic (call : Ending (Status × TimePoint)) (existsNow : Bool) : Operation → Prop
  | .get => topicExists call = .returned existed ∧ subscriptionExists call = .returned existed
  | .create =>
    (existed = false →
      createTopic call = .returned () ∧ createSubscription call = .returned ()) ∧
    ∀ e, createTopic call = .threw e ∨ createSubscription call = .threw e →
      e.code = StatusCode.alreadyExists.toNat → existed = true
  | .delete =>
    deleteTopic call = .returned () ∧ deleteSubscription call = .returned () ∧
      existsNow = false

/-- A call that returns has been answered after attempts that were all lost. -/
theorem callOn_returned
    {r : Status × TimePoint}
    (h : (callOn name countPolicy timePolicy backoffPolicy start op existed served).ending =
      .returned r) :
    ∃ earlier last later message, served = earlier ++ last :: later ∧
      (∀ a ∈ earlier, a.fate.lost = true) ∧ last.fate = .answered message ∧
      r.1 = ⟨(op.execute (op.existsAfter existed earlier)).1, message⟩ ∧
      existsAfterCall name countPolicy timePolicy backoffPolicy start op existed served =
        (op.execute (op.existsAfter existed earlier)).2 := by
  obtain ⟨before, a, hissued, hbefore, ha, rfl⟩ := returned_makeCall _ _ _ _ _ _ h
  obtain ⟨rest, hrest⟩ : issued countPolicy timePolicy start (op.attemptsOn existed served) <+:
      op.attemptsOn existed served := Retry.made_initial _ _ _ _
  have hsplit := hrest.symm
  rw [hissued, List.append_assoc, List.singleton_append] at hsplit
  obtain ⟨earlier, last, later, hserved, rfl, rfl⟩ := op.attemptsOn_eq_append hsplit
  have hlost : last.fate.lost = false :=
    (last.fate.retriable_status op (op.existsAfter existed earlier)).symm.trans ha
  cases hfate : last.fate with
  | answered message =>
    refine ⟨earlier, last, later, message, hserved,
      (op.retriable_attemptsOn existed earlier).mp hbefore, hfate, ?_, ?_⟩
    · simp [ServedAttempt.attempt, hfate, Fate.status]
    · have hlength : (callOn name countPolicy timePolicy backoffPolicy start op existed
          served).calls.length = (earlier ++ [last]).length := by
        unfold callOn
        rw [length_calls_makeCall, hissued, List.length_append, List.length_append,
          op.length_attemptsOn, List.length_singleton, List.length_singleton]
      have htake : served.take (earlier ++ [last]).length = earlier ++ [last] := by
        have hassoc : served = (earlier ++ [last]) ++ later := by
          rw [hserved, List.append_assoc, List.singleton_append]
        rw [hassoc, List.take_left' rfl]
      rw [existsAfterCall, hlength, htake, Operation.existsAfter, List.foldl_append,
        List.foldl_cons, List.foldl_nil, Fate.stateAfter, hfate]
      rfl
  | deadlineExceeded message executed =>
    rw [hfate] at hlost
    contradiction
  | unavailable message executed =>
    rw [hfate] at hlost
    contradiction

/-- The attempts before the first that is answered. -/
def lostBefore : List ServedAttempt := served.takeWhile (·.fate.lost)

theorem lostBefore_eq {earlier later : List ServedAttempt} {last : ServedAttempt}
    {message : String} (h : served = earlier ++ last :: later)
    (hlost : ∀ a ∈ earlier, a.fate.lost = true) (hlast : last.fate = .answered message) :
    lostBefore served = earlier := by
  have hstop : last.fate.lost = false := by rw [hlast, Fate.lost]
  rw [lostBefore, h, List.takeWhile_append_of_pos hlost, List.takeWhile_cons, hstop]
  simp

/-- A call that returns looks atomic, save when it creates what one of its own lost
attempts has created. -/
theorem looksAtomic_iff
    (hreturns : (callOn name countPolicy timePolicy backoffPolicy start op existed
      served).ending.Returns) :
    LooksAtomic existed
        (callOn name countPolicy timePolicy backoffPolicy start op existed served).ending
        (existsAfterCall name countPolicy timePolicy backoffPolicy start op existed served)
        op ↔
      (op = .create → existed = true ∨ ∀ a ∈ lostBefore served, a.fate.executed = false) := by
  obtain ⟨⟨status, next⟩, hr⟩ := hreturns
  obtain ⟨earlier, last, later, message, hserved, hlost, hlast, hstatus, hafter⟩ :=
    callOn_returned _ _ _ _ _ _ _ _ hr
  have hbefore := lostBefore_eq served hserved hlost hlast
  have hstate := op.existsAfter_eq existed earlier
  simp only at hstatus
  rw [hr, hafter, hstatus, hbefore, hstate]
  cases op with
  | get =>
    -- a lookup changes nothing, so the last attempt finds what the first has found
    cases existed <;>
      simp [LooksAtomic, topicExists, subscriptionExists, existsCall, Ending.andThen,
        Operation.execute]
  | create =>
    cases existed with
    | true =>
      simp [LooksAtomic, createTopic, createSubscription, createCall, Ending.andThen,
        Operation.execute]
    | false =>
      by_cases hexecuted : earlier.any (·.fate.executed) = true
      · rw [if_pos hexecuted]
        obtain ⟨a, ha, haexec⟩ := List.any_eq_true.mp hexecuted
        constructor
        · intro h
          have := (h.1 rfl).1
          contradiction
        · intro h
          rcases h rfl with h | h
          · contradiction
          · rw [h a ha] at haexec
            contradiction
      · rw [if_neg hexecuted]
        constructor
        · intro _ _
          right
          intro a ha
          by_contra haexec
          exact hexecuted (List.any_eq_true.mpr ⟨a, ha, by simpa using haexec⟩)
        · intro _
          simp [LooksAtomic, createTopic, createSubscription, createCall, Ending.andThen,
            Operation.execute]
  | delete =>
    -- whoever has deleted it, the resource is gone
    cases existed <;> cases earlier.any (·.fate.executed) <;>
      simp [LooksAtomic, deleteTopic, deleteSubscription, deleteCall, Ending.andThen,
        Operation.execute]

end Run

def servedAt (t : TimePoint) (fate : Fate) : ServedAttempt where
  checkTime := t
  systemTime := 1700000000 * 10 ^ 9 + t
  next := t
  sample := ⟨fun mean _ => mean, 0⟩
  fate := fate

/-- An attempt that is executed although its answer is lost, and one that is answered. -/
def lostThenAnswered : List ServedAttempt :=
  [servedAt 0 (.unavailable "" true), servedAt 300000000 (.answered "")]

/-- An attempt that does not reach the server, and one that is answered. -/
def missedThenAnswered : List ServedAttempt :=
  [servedAt 0 (.unavailable "" false), servedAt 300000000 (.answered "")]

/-- A deletion that has to be tried again looks like one, and so does a creation whose first
attempt was not executed. -/
theorem looksAtomic_iff_lostDeletion :
    LooksAtomic true (callOn "DeleteTopic" {} {} {} 0 .delete true lostThenAnswered).ending
        (existsAfterCall "DeleteTopic" {} {} {} 0 .delete true lostThenAnswered) .delete ∧
      LooksAtomic false
        (callOn "CreateTopic" {} {} {} 0 .create false missedThenAnswered).ending
        (existsAfterCall "CreateTopic" {} {} {} 0 .create false missedThenAnswered) .create := by
  constructor
  · exact (looksAtomic_iff "DeleteTopic" {} {} {} 0 .delete true lostThenAnswered
      ⟨(⟨.notFound, ""⟩, 300000000), by rfl⟩).mpr (by simp)
  · exact (looksAtomic_iff "CreateTopic" {} {} {} 0 .create false missedThenAnswered
      ⟨(⟨.ok, ""⟩, 300000000), by rfl⟩).mpr fun _ => .inr (by decide)

/-- A creation whose first answer is lost reports that the resource exists already, which it
did not. -/
theorem not_looksAtomic_lostCreation :
    (callOn "CreateTopic" {} {} {} 0 .create false lostThenAnswered).ending =
        .returned (⟨.alreadyExists, ""⟩, 300000000) ∧
      ¬ LooksAtomic false
        (callOn "CreateTopic" {} {} {} 0 .create false lostThenAnswered).ending
        (existsAfterCall "CreateTopic" {} {} {} 0 .create false lostThenAnswered) .create := by
  constructor
  · rfl
  · intro h
    have := (h.1 rfl).1
    contradiction

end Pubsuber
