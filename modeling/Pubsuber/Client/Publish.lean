import Pubsuber.Client.Attributes
import Pubsuber.Client.Management

/-!
# Publishing at least once

`TopicImpl::Publish` is one `make_call`. The server gives every copy of the message
that it stores an id of its own, also for an attempt whose answer is lost, and a
call that returns passes on the id of the last copy.
-/

namespace Pubsuber

open HashContainer

/-- An attempt with the `message_ids` of its response. -/
structure PublishAttempt where
  attempt : Attempt
  messageIds : List String

/-- The requests of a call, one for each attempt, and how it ends. -/
structure PublishRun where
  requests : List PublishRequest
  ending : Ending String

def noMessageIdError : Exception :=
  ⟨"Pubsuber: received response.message_ids_size() is 0, no msg id to return to caller.",
    kUninitializedCode⟩

section Publish

variable (order : HashOrder) (name : String) (countPolicy : RetryCountPolicy)
  (timePolicy : MaxRetryTimePolicy) (backoffPolicy : ExponentialBackoffPolicy)
  (start : TimePoint) (fullName : String) (buffer : ByteBuffer) (attributes : AttributeMap)

/-- What `Publish` makes of a `make_call` that has ended, with the response of its last
attempt. -/
def publishEnding (call : Ending (Status × TimePoint)) (messageIds : List String) :
    Ending String :=
  call.andThen fun (status, _) =>
    match status.code with
    | .ok =>
      match messageIds with
      | [] => .threw noMessageIdError
      | id :: _ => .returned id
    | _ => .threw (requestError "Publish request" status)

def publish (attempts : List PublishAttempt) : PublishRun :=
  match publishRequest order fullName buffer attributes with
  | .error e => ⟨[], .threw e⟩
  | .ok request =>
    let trace := makeCall name countPolicy timePolicy start backoffPolicy
      (attempts.map (·.attempt))
    let made := attempts.take trace.calls.length
    ⟨made.map fun _ => request,
      publishEnding trace.ending (made.getLast?.elim [] (·.messageIds))⟩

end Publish

/-! ## The server -/

/-- What becomes of an attempt: the server has stored a copy and its answer arrives, or
the client sees another status, and the server may have stored a copy all the same. -/
inductive PublishFate
  | published (messageId message : String)
  | failed (status : Status) (hstatus : status.code ≠ .ok) (messageId : Option String)

namespace PublishFate

def status : PublishFate → Status
  | published _ message => ⟨.ok, message⟩
  | failed status _ _ => status

/-- The id of the copy that the server has stored. -/
def stored : PublishFate → Option String
  | published messageId _ => some messageId
  | failed _ _ messageId => messageId

def messageIds : PublishFate → List String
  | published messageId _ => [messageId]
  | failed _ _ _ => []

end PublishFate

structure ServedPublish where
  checkTime : TimePoint
  systemTime : ℤ
  next : TimePoint
  sample : ExpoBackoff.Sample
  fate : PublishFate

def ServedPublish.attempt (a : ServedPublish) : PublishAttempt where
  attempt := ⟨a.checkTime, a.systemTime, a.next, a.fate.status, a.sample⟩
  messageIds := a.fate.messageIds

/-- The copies that the server has stored of the requests that reached it. -/
def copiesOf (requests : List PublishRequest) (served : List ServedPublish) :
    List (String × PubsubMessage) :=
  (requests.zip served).flatMap fun p =>
    p.2.fate.stored.elim [] fun id => p.1.messages.map fun msg => (id, msg)

theorem copiesOf_eq {request : PublishRequest} {msg : PubsubMessage}
    (hmsg : request.messages = [msg]) (served : List ServedPublish) (n : ℕ) :
    copiesOf ((served.take n).map fun _ => request) served =
      (served.take n).filterMap fun a => a.fate.stored.map fun id => (id, msg) := by
  unfold copiesOf
  induction served generalizing n with
  | nil => simp
  | cons a as ih =>
    cases n with
    | zero => rfl
    | succ n =>
      rw [List.take_succ_cons, List.map_cons, List.zip_cons_cons, List.flatMap_cons, ih n,
        List.filterMap_cons, hmsg]
      cases a.fate.stored <;> rfl

theorem copiesOf_eq_nil {served : List ServedPublish} {msg : PubsubMessage} :
    (served.filterMap fun a => a.fate.stored.map fun id => (id, msg)) = [] ↔
      ∀ a ∈ served, a.fate.stored = none := by
  simp [List.filterMap_eq_nil_iff]

/-! ## What the server has in the end -/

section Run

variable (order : HashOrder) (name : String) (countPolicy : RetryCountPolicy)
  (timePolicy : MaxRetryTimePolicy) (backoffPolicy : ExponentialBackoffPolicy)
  (start : TimePoint) (fullName : String) (buffer : ByteBuffer) (attributes : AttributeMap)
  (served : List ServedPublish)

def publishOn : PublishRun :=
  publish order name countPolicy timePolicy backoffPolicy start fullName buffer attributes
    (served.map (·.attempt))

def publishCall : Trace :=
  makeCall name countPolicy timePolicy start backoffPolicy
    ((served.map (·.attempt)).map (·.attempt))

/-- How `Publish` ends when an attempt settles it. -/
def PublishFate.ending : PublishFate → Ending String
  | published messageId _ => .returned messageId
  | failed status _ _ => .threw (requestError "Publish request" status)

theorem publishOn_eq :
    publishOn order name countPolicy timePolicy backoffPolicy start fullName buffer attributes
        served =
      match publishRequest order fullName buffer attributes with
      | .error e => ⟨[], .threw e⟩
      | .ok request =>
        let trace := publishCall name countPolicy timePolicy backoffPolicy start served
        let made := served.take trace.calls.length
        ⟨made.map fun _ => request,
          publishEnding trace.ending (made.getLast?.elim [] (·.fate.messageIds))⟩ := by
  unfold publishOn publish publishCall
  cases publishRequest order fullName buffer attributes with
  | error e => rfl
  | ok request =>
    simp only [← List.map_take, List.map_map, List.getLast?_map, Option.elim_map]
    rfl

theorem publishEnding_of_returned {r : Status × TimePoint}
    (h : (publishCall name countPolicy timePolicy backoffPolicy start served).ending =
      .returned r) :
    let trace := publishCall name countPolicy timePolicy backoffPolicy start served
    let made := served.take trace.calls.length
    ∃ earlier last, made = earlier ++ [last] ∧
      (∀ a ∈ earlier, a.fate.status.code.retriable = true) ∧
      publishEnding trace.ending (made.getLast?.elim [] (·.fate.messageIds)) =
        last.fate.ending := by
  intro trace made
  obtain ⟨before, a, hissued, hbefore, -, hr⟩ := returned_makeCall _ _ _ _ _ _ h
  have htake := take_calls_makeCall countPolicy timePolicy name backoffPolicy start
    ((served.map (·.attempt)).map (·.attempt))
  rw [hissued, ← List.map_take, ← List.map_take, List.map_map] at htake
  obtain ⟨earlier, rest, hmade, hearlier, hrest⟩ := List.map_eq_append_iff.mp htake
  obtain ⟨last, rfl, hlast⟩ := List.map_eq_singleton_iff.mp hrest
  have hmade : made = earlier ++ [last] := hmade
  refine ⟨earlier, last, hmade, ?_, ?_⟩
  · intro b hb
    exact hbefore _ (hearlier ▸ List.mem_map_of_mem hb)
  · have hstatus : r.1 = last.fate.status := by
      rw [hr, ← hlast]
      rfl
    have hending : trace.ending = .returned r := h
    rw [hmade, List.getLast?_concat, Option.elim_some, hending]
    simp only [publishEnding, Ending.andThen, hstatus]
    cases hfate : last.fate with
    | published messageId message => rfl
    | failed status hne messageId => simp only [PublishFate.status, PublishFate.ending]

theorem publishEnding_of_published {a : ServedPublish} {id message : String}
    (ha : a ∈ served.take
      (publishCall name countPolicy timePolicy backoffPolicy start served).calls.length)
    (hfate : a.fate = .published id message) :
    let trace := publishCall name countPolicy timePolicy backoffPolicy start served
    publishEnding trace.ending ((served.take trace.calls.length).getLast?.elim []
      (·.fate.messageIds)) = .returned id := by
  have hissued : a.attempt.attempt ∈ issued countPolicy timePolicy start
      ((served.map (·.attempt)).map (·.attempt)) := by
    rw [← take_calls_makeCall countPolicy timePolicy name backoffPolicy start, ← List.map_take,
      ← List.map_take]
    exact List.mem_map_of_mem (List.mem_map_of_mem ha)
  have hsettles : a.attempt.attempt.retriable = false := by
    rw [Attempt.retriable, ServedPublish.attempt, hfate]
    rfl
  obtain ⟨r, hr⟩ := (returns_makeCall_iff countPolicy timePolicy name backoffPolicy start
    _).mpr ⟨_, hissued, hsettles⟩
  obtain ⟨earlier, last, hmade, hearlier, hending⟩ :=
    publishEnding_of_returned name countPolicy timePolicy backoffPolicy start served hr
  refine hending.trans ?_
  rw [hmade] at ha
  rcases List.mem_append.mp ha with ha | ha
  · have := hearlier a ha
    rw [hfate] at this
    contradiction
  · rw [← List.mem_singleton.mp ha, hfate]
    rfl

/-- A call that ends with an id has it from its last attempt. -/
theorem published_of_publishEnding {id : String}
    (h : let trace := publishCall name countPolicy timePolicy backoffPolicy start served
      publishEnding trace.ending ((served.take trace.calls.length).getLast?.elim []
        (·.fate.messageIds)) = .returned id) :
    ∃ earlier last message,
      served.take (publishCall name countPolicy timePolicy backoffPolicy start
        served).calls.length = earlier ++ [last] ∧ last.fate = .published id message := by
  cases hcall : (publishCall name countPolicy timePolicy backoffPolicy start served).ending with
  | returned r =>
    obtain ⟨earlier, last, hmade, -, hending⟩ :=
      publishEnding_of_returned name countPolicy timePolicy backoffPolicy start served hcall
    have hlast := hending.symm.trans h
    cases hfate : last.fate with
    | published messageId message =>
      rw [hfate] at hlast
      cases hlast
      exact ⟨earlier, last, message, hmade, hfate⟩
    | failed status hne messageId =>
      rw [hfate] at hlast
      contradiction
  | threw | terminated | calling =>
    simp only [hcall, publishEnding, Ending.andThen] at h
    contradiction

/-- What a caller knows of the copies that the server has stored. -/
structure AtLeastOnce (run : PublishRun) : Prop where
  refused : "" ∈ attributes → run = ⟨[], .threw emptyKeyError⟩
  carries : ∀ copy ∈ copiesOf run.requests served, Carries buffer attributes copy.2
  returned : ∀ id, run.ending = .returned id → ∃ lost msg,
    copiesOf run.requests served = lost ++ [(id, msg)] ∧
    (lost = [] ↔ ∀ a ∈ served.take (run.requests.length - 1), a.fate.stored = none)
  returns : run.ending.Returns ↔
    ∃ a ∈ served.take run.requests.length, ∃ id message, a.fate = .published id message

/-- A published message is stored at least once, as often as the server has acted on an
attempt, and always with the payload and the attributes that were given; the caller gets
the id of the last copy. -/
theorem publish_atLeastOnce :
    AtLeastOnce buffer attributes served (publishOn order name countPolicy timePolicy
      backoffPolicy start fullName buffer attributes served) := by
  rw [publishOn_eq]
  cases hrequest : publishRequest order fullName buffer attributes with
  | error e =>
    rw [publishRequest_eq] at hrequest
    split_ifs at hrequest with hkey
    cases hrequest
    constructor
    case refused => exact fun _ => rfl
    case carries => simp [copiesOf]
    case returned =>
      intro id hid
      contradiction
    case returns =>
      refine iff_of_false ?_ (by simp)
      rintro ⟨id, hid⟩
      contradiction
  | ok request =>
    obtain ⟨hkey, -, msg, hmsg, hcarries⟩ := carries_of_publishRequest order hrequest
    have hcopies := copiesOf_eq hmsg served
      (publishCall name countPolicy timePolicy backoffPolicy start served).calls.length
    constructor
    case refused => exact fun hempty => absurd hempty hkey
    case carries =>
      intro copy hcopy
      rw [hcopies] at hcopy
      obtain ⟨a, -, ha⟩ := List.mem_filterMap.mp hcopy
      obtain ⟨id, -, rfl⟩ := Option.map_eq_some_iff.mp ha
      exact hcarries
    case returned =>
      intro id hid
      obtain ⟨earlier, last, message, hmade, hfate⟩ := published_of_publishEnding _ _ _ _ _ _ hid
      refine ⟨earlier.filterMap fun a => a.fate.stored.map fun id => (id, msg), msg, ?_, ?_⟩
      · rw [hcopies, hmade, List.filterMap_append]
        simp [hfate, PublishFate.stored]
      · have hearlier : served.take earlier.length = earlier := by
          have hprefix : earlier <+: served :=
            (List.prefix_append earlier [last]).trans (hmade ▸ List.take_prefix _ served)
          exact (List.prefix_iff_eq_take.mp hprefix).symm
        rw [List.length_map, hmade, List.length_append, List.length_singleton,
          Nat.add_sub_cancel, hearlier]
        exact copiesOf_eq_nil
    case returns =>
      rw [List.length_map, ← List.prefix_iff_eq_take.mp (List.take_prefix _ served)]
      constructor
      · rintro ⟨id, hid⟩
        obtain ⟨earlier, last, message, hmade, hfate⟩ :=
          published_of_publishEnding _ _ _ _ _ _ hid
        refine ⟨last, ?_, id, message, hfate⟩
        rw [hmade]
        exact List.mem_append_right _ List.mem_cons_self
      · rintro ⟨a, ha, id, message, hfate⟩
        exact ⟨id, publishEnding_of_published _ _ _ _ _ _ ha hfate⟩

end Run

end Pubsuber
