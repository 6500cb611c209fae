import Pubsuber.Library.Unordered
import Pubsuber.Retry.Status

/-!
# Payload and attributes from one user to the other

`TopicImpl::Publish` copies a `std::map` of attributes into the hash map of a
`PubsubMessage`, the constructor of `MessageImpl` copies that of a received message
into a `std::map` again. On the wire the entries of the hash map have no order.
-/

namespace Pubsuber

open HashContainer

/-- Binary data in a `std::string`. -/
abbrev ByteBuffer := List UInt8

/-- `std::map<std::string, std::string>`; iterates in the order of its keys. -/
abbrev AttributeMap := Std.ExtTreeMap String String

/-- `google::protobuf::Map<std::string, std::string>`. -/
abbrev ProtobufMap := Unordered (Prod.fst : String × String → String)

structure PubsubMessage where
  data : ByteBuffer
  attributes : ProtobufMap

structure PublishRequest where
  topic : String
  messages : List PubsubMessage

def emptyKeyError : Exception :=
  ⟨"Pubsuber: attribute key must not be empty", kUninitializedCode⟩

variable (order : HashOrder)

def copyAttributes : List (String × String) → PubsubMessage → Except Exception PubsubMessage
  | [], msg => .ok msg
  | it :: rest, msg =>
    if it.1.isEmpty then .error emptyKeyError
    else copyAttributes rest { msg with attributes := msg.attributes.emplace order it }

/-- `Publish` up to its `make_call`. -/
def publishRequest (fullName : String) (buffer : ByteBuffer) (attributes : AttributeMap) :
    Except Exception PublishRequest :=
  (copyAttributes order attributes.toList ⟨buffer, .empty⟩).map fun msg => ⟨fullName, [msg]⟩

/-- The part of a `MessageImpl` that its user reads. -/
structure MessageContents where
  subscriptionName : String
  attributes : AttributeMap
  msg : PubsubMessage

namespace MessageContents

/-- The constructor; `insert` leaves an entry alone that is there already. -/
def create (subName : String) (msg : PubsubMessage) : MessageContents where
  subscriptionName := subName
  attributes := msg.attributes.toList.foldl (fun m it => m.insertIfNew it.1 it.2) ∅
  msg := msg

def payload (m : MessageContents) : ByteBuffer := m.msg.data

end MessageContents

/-! ## Copying -/

theorem copyAttributes_eq (entries : List (String × String)) (msg : PubsubMessage) :
    copyAttributes order entries msg =
      if "" ∈ entries.map Prod.fst then .error emptyKeyError
      else .ok
        { msg with attributes := entries.foldl (Unordered.emplace order) msg.attributes } := by
  induction entries generalizing msg with
  | nil => rfl
  | cons it rest ih =>
    unfold copyAttributes
    by_cases hkey : it.1 = ""
    · rw [if_pos (by simp [hkey]), if_pos (by simp [hkey])]
    · have hmem : "" ∈ (it :: rest).map Prod.fst ↔ "" ∈ rest.map Prod.fst := by
        simp [Ne.symm hkey]
      rw [if_neg (by simpa using hkey), ih, if_congr hmem rfl rfl, List.foldl_cons]

def valueIn (entries : List (String × String)) (key : String) : Option String :=
  (entries.find? fun it => it.1 = key).map Prod.snd

theorem valueIn_eq_some {entries : List (String × String)}
    (hnodup : (entries.map Prod.fst).Nodup) {key value : String} :
    valueIn entries key = some value ↔ (key, value) ∈ entries :=
  Unordered.lookup_eq_some (c := (⟨entries, hnodup⟩ : ProtobufMap))

theorem nodup_keys_toList (attributes : AttributeMap) :
    (attributes.toList.map Prod.fst).Nodup := by
  rw [Std.ExtTreeMap.map_fst_toList_eq_keys]
  exact Std.ExtTreeMap.nodup_keys

theorem valueIn_toList (attributes : AttributeMap) (key : String) :
    valueIn attributes.toList key = attributes[key]? := by
  ext value
  rw [valueIn_eq_some (nodup_keys_toList attributes),
    Std.ExtTreeMap.mem_toList_iff_getElem?_eq_some]

theorem lookup_foldl_emplace (attributes : AttributeMap) (key : String) :
    (attributes.toList.foldl (Unordered.emplace order) (.empty : ProtobufMap)).lookup key =
      attributes[key]? := by
  rw [Unordered.lookup, Unordered.find?_foldl_emplace, ← valueIn_toList]
  rfl

theorem getElem?_foldl_insertIfNew (entries : List (String × String)) (m : AttributeMap)
    (key : String) :
    (entries.foldl (fun m it => m.insertIfNew it.1 it.2) m)[key]? =
      m[key]?.or (valueIn entries key) := by
  induction entries generalizing m with
  | nil => simp [valueIn]
  | cons it rest ih =>
    rw [List.foldl_cons, ih, Std.ExtTreeMap.getElem?_insertIfNew, valueIn, valueIn, List.find?_cons]
    by_cases hkey : it.1 = key
    · subst hkey
      by_cases hmem : it.1 ∈ m
      · simp [hmem]
      · simp [hmem]
    · simp [hkey]

/-! ## There and back -/

/-- What becomes of a message between the two users: the payload stays, the entries of
the hash map arrive in any order. -/
structure Transmitted (sent received : PubsubMessage) : Prop where
  data : received.data = sent.data
  attributes : received.attributes.toList.Perm sent.attributes.toList

/-- A message from which its receiver reads a payload and attributes. -/
def Carries (buffer : ByteBuffer) (attributes : AttributeMap) (msg : PubsubMessage) : Prop :=
  ∀ received, Transmitted msg received → ∀ subName,
    (MessageContents.create subName received).payload = buffer ∧
    (MessageContents.create subName received).attributes = attributes

theorem Transmitted.attributes_create {sent received : PubsubMessage}
    (h : Transmitted sent received) (subName key : String) :
    (MessageContents.create subName received).attributes[key]? = sent.attributes.lookup key := by
  rw [MessageContents.create, getElem?_foldl_insertIfNew]
  ext value
  rw [Std.ExtTreeMap.getElem?_empty, Option.none_or, valueIn_eq_some received.attributes.nodup,
    h.attributes.mem_iff, Unordered.lookup_eq_some]

theorem publishRequest_eq (fullName : String) (buffer : ByteBuffer) (attributes : AttributeMap) :
    publishRequest order fullName buffer attributes =
      if "" ∈ attributes then .error emptyKeyError
      else .ok ⟨fullName, [⟨buffer,
        attributes.toList.foldl (Unordered.emplace order) .empty⟩]⟩ := by
  have hmem : "" ∈ attributes.toList.map Prod.fst ↔ "" ∈ attributes := by
    rw [Std.ExtTreeMap.map_fst_toList_eq_keys, Std.ExtTreeMap.mem_keys]
  rw [publishRequest, copyAttributes_eq, if_congr hmem rfl rfl]
  split_ifs <;> rfl

theorem carries_of_publishRequest {fullName : String} {buffer : ByteBuffer}
    {attributes : AttributeMap} {request : PublishRequest}
    (h : publishRequest order fullName buffer attributes = .ok request) :
    "" ∉ attributes ∧ request.topic = fullName ∧
      ∃ msg, request.messages = [msg] ∧ Carries buffer attributes msg := by
  rw [publishRequest_eq] at h
  split_ifs at h with hkey
  cases h
  refine ⟨hkey, rfl, _, rfl, fun received hreceived subName => ⟨hreceived.data, ?_⟩⟩
  apply Std.ExtTreeMap.ext_getElem?
  intro key
  rw [hreceived.attributes_create, lookup_foldl_emplace]

/-- A request can be built exactly from attributes without an empty key, and whatever the
hash maps do to the entries on the way, its receiver reads the payload and the
attributes that were published. -/
theorem publishRequest_roundTrip (fullName : String) (buffer : ByteBuffer)
    (attributes : AttributeMap) :
    (publishRequest order fullName buffer attributes = .error emptyKeyError ↔ "" ∈ attributes) ∧
      ("" ∉ attributes → ∃ msg, publishRequest order fullName buffer attributes =
        .ok ⟨fullName, [msg]⟩ ∧ Carries buffer attributes msg) := by
  constructor
  · rw [publishRequest_eq]
    split_ifs with hkey <;> simp [hkey]
  · intro hkey
    have hok : publishRequest order fullName buffer attributes = .ok ⟨fullName, [⟨buffer,
        attributes.toList.foldl (Unordered.emplace order) .empty⟩]⟩ := by
      rw [publishRequest_eq, if_neg hkey]
    obtain ⟨-, -, msg, hmsg, hcarries⟩ := carries_of_publishRequest order hok
    rw [List.singleton_inj] at hmsg
    exact ⟨_, hok, hmsg ▸ hcarries⟩

end Pubsuber
