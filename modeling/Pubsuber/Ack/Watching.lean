import Pubsuber.Ack.History
import Pubsuber.Library.Staging

/-!
# Registrations and merges in any order

`AddDeadlineWatcher` puts an id into the input map with `insert_or_assign`, so
that a later registration replaces an earlier one. `MergeInput` moves the input
into the keep-alive map with `merge`, which keeps the descriptor that is already
there, and drops the rest. When an id is registered again, it therefore depends
on the merges in between which registration is watched.
-/

namespace Pubsuber

open HashContainer StateMachine Staging

def nextAckOf (c : WatchDescrContainer) (ackID : AckID) : Option TimePoint :=
  (c.lookup ackID).map AckWatchDescriptior.nextAck

def watches (c : WatchDescrContainer) : List (AckID × TimePoint) :=
  c.toList.map fun entry => (entry.1, entry.2.nextAck)

namespace ModAckIterator

/-- `AddDeadlineWatcher` for an entry put, `MergeInput` for a merge, each with the
iteration order it results in. -/
def watchStep (it : ModAckIterator) : HashOrder × Step AckID TimePoint → ModAckIterator
  | (order, .put ackID nextAck) => it.addDeadlineWatcher order ackID nextAck
  | (order, .merge) => it.mergeInput order

def watch (it : ModAckIterator) (steps : List (HashOrder × Step AckID TimePoint)) :
    ModAckIterator :=
  steps.foldl watchStep it

/-- The registrations of a run that ends with a merge, in batches: what is watched
already, what the input holds together with the registrations up to the first
merge, and so on. -/
def registered (it : ModAckIterator) (steps : List (HashOrder × Step AckID TimePoint)) :
    List (List (AckID × TimePoint)) :=
  watches it.keepAliveAckIDs :: batches (watches it.inputAckIDs) (steps.map Prod.snd)

end ModAckIterator

open ModAckIterator

variable (order : HashOrder) (it : ModAckIterator) (k : AckID)

theorem nextAckOf_insertOrAssign (c : WatchDescrContainer) (ackID : AckID)
    (nextAck : TimePoint) :
    nextAckOf (c.insertOrAssign order (ackID, ⟨nextAck⟩)) k =
      if ackID = k then some nextAck else nextAckOf c k := by
  unfold nextAckOf
  rw [Unordered.lookup_insertOrAssign]
  split_ifs <;> rfl

theorem nextAckOf_merge (c source : WatchDescrContainer) :
    nextAckOf (c.merge order source) k = (nextAckOf c k).or (nextAckOf source k) := by
  unfold nextAckOf
  rw [Unordered.lookup_merge, Option.map_or]

theorem lastOf_watches (c : WatchDescrContainer) : lastOf k (watches c) = nextAckOf c k := by
  obtain ⟨entries, hnodup⟩ := c
  change lastOf k (entries.map fun entry => (entry.1, entry.2.nextAck)) =
    ((entries.find? fun x => x.1 = k).map Prod.snd).map AckWatchDescriptior.nextAck
  induction entries with
  | nil => rfl
  | cons entry entries ih =>
    obtain ⟨hfresh, hnodup⟩ := List.nodup_cons.mp hnodup
    rw [List.map_cons, lastOf, ih hnodup]
    by_cases hk : entry.1 = k
    · have hnone : entries.find? (fun x => x.1 = k) = none := by
        apply List.find?_eq_none.mpr
        intro x hx hxk
        apply hfresh
        rw [hk, ← of_decide_eq_true hxk]
        exact List.mem_map_of_mem hx
      rw [hnone, if_pos hk, List.find?_cons_of_pos (by simpa using hk)]
      rfl
    · rw [if_neg hk, List.find?_cons_of_neg (by simpa using hk), Option.or_none]

/-- The input holds the last registration of the batch under way, and the
keep-alive map the first batch that has the id. -/
theorem nextAckOf_watch (steps : List (HashOrder × Step AckID TimePoint))
    (current : List (AckID × TimePoint))
    (hcurrent : ∀ k, nextAckOf it.inputAckIDs k = lastOf k current) :
    nextAckOf ((it.watch steps).mergeInput order).keepAliveAckIDs k =
      (nextAckOf it.keepAliveAckIDs k).or (firstOf k (batches current (steps.map Prod.snd))) := by
  induction steps generalizing it current with
  | nil =>
    change nextAckOf (it.keepAliveAckIDs.merge order it.inputAckIDs) k = _
    rw [nextAckOf_merge, hcurrent, List.map_nil, batches, firstOf_cons]
    congr 1
    exact (Option.or_none).symm
  | cons step steps ih =>
    obtain ⟨stepOrder, step⟩ := step
    rw [List.map_cons]
    cases step with
    | put ackID nextAck =>
      change nextAckOf (((it.addDeadlineWatcher stepOrder ackID nextAck).watch steps).mergeInput
        order).keepAliveAckIDs k = _
      rw [batches, ih _ (current ++ [(ackID, nextAck)])]
      · rfl
      · intro j
        rw [lastOf_concat, ← hcurrent]
        exact nextAckOf_insertOrAssign stepOrder j it.inputAckIDs ackID nextAck
    | merge =>
      change nextAckOf (((it.mergeInput stepOrder).watch steps).mergeInput
        order).keepAliveAckIDs k = _
      rw [batches, firstOf_cons, ih (it.mergeInput stepOrder) [] fun j => rfl]
      change (nextAckOf (it.keepAliveAckIDs.merge stepOrder it.inputAckIDs) k).or _ = _
      rw [nextAckOf_merge, hcurrent, Option.or_assoc]

/-- After a run and a merge an id is watched with the time from the first batch
that has it. -/
theorem nextAckOf_registered (steps : List (HashOrder × Step AckID TimePoint)) :
    nextAckOf ((it.watch steps).mergeInput order).keepAliveAckIDs k =
      firstOf k (it.registered steps) := by
  unfold registered
  rw [firstOf_cons, lastOf_watches]
  apply nextAckOf_watch
  intro j
  rw [lastOf_watches]

theorem flatten_registered (steps : List (HashOrder × Step AckID TimePoint)) :
    (it.registered steps).flatten =
      watches it.keepAliveAckIDs ++ (watches it.inputAckIDs ++ puts (steps.map Prod.snd)) := by
  unfold registered
  rw [List.flatten_cons, flatten_batches]

/-- The time of the last registration of an id, before the run or in it. -/
def lastRegistration (it : ModAckIterator) (steps : List (HashOrder × Step AckID TimePoint))
    (k : AckID) : Option TimePoint :=
  lastOf k (watches it.keepAliveAckIDs ++ (watches it.inputAckIDs ++ puts (steps.map Prod.snd)))

/-- A run and a merge leave every id with its last registration exactly where no
id comes back after a merge with another time in the end. -/
theorem lastRegistration_iff (steps : List (HashOrder × Step AckID TimePoint)) :
    (∀ k, nextAckOf ((it.watch steps).mergeInput order).keepAliveAckIDs k =
      lastRegistration it steps k) ↔ FirstIsLast (it.registered steps) := by
  rw [← firstOf_eq_lastOf_iff]
  unfold lastRegistration
  constructor
  · intro h k
    rw [flatten_registered, ← h k, nextAckOf_registered]
  · intro h k
    rw [nextAckOf_registered, h k, flatten_registered]

/-- Two runs with the same registrations, each with a merge at its end, watch the
same ids for the same times, each id with the time of its last registration,
exactly where in both of them the first batch with an id ends with the time that
the id is registered with in the end. -/
theorem watches_agree_iff (order order' : HashOrder) (it : ModAckIterator)
    (steps steps' : List (HashOrder × Step AckID TimePoint))
    (hputs : puts (steps.map Prod.snd) = puts (steps'.map Prod.snd)) :
    (∀ k, nextAckOf ((it.watch steps).mergeInput order).keepAliveAckIDs k =
        nextAckOf ((it.watch steps').mergeInput order').keepAliveAckIDs k ∧
      nextAckOf ((it.watch steps).mergeInput order).keepAliveAckIDs k =
        lastRegistration it steps k) ↔
    FirstIsLast (it.registered steps) ∧ FirstIsLast (it.registered steps') := by
  have hlast : ∀ k, lastRegistration it steps k = lastRegistration it steps' k := by
    intro k
    unfold lastRegistration
    rw [hputs]
  rw [← lastRegistration_iff order, ← lastRegistration_iff order']
  constructor
  · intro h
    constructor
    · intro k
      exact (h k).2
    · intro k
      obtain ⟨hsame, hvalue⟩ := h k
      rw [← hsame, hvalue, hlast]
  · rintro ⟨hsteps, hsteps'⟩ k
    refine ⟨?_, hsteps k⟩
    rw [hsteps, hsteps', hlast]

/-- An id registered for time 1 and again for time 2, with a merge in between. -/
def apart : List (HashOrder × Step AckID TimePoint) :=
  [(.newestFirst, .put "a" 1), (.newestFirst, .merge), (.newestFirst, .put "a" 2)]

def together : List (HashOrder × Step AckID TimePoint) :=
  [(.newestFirst, .put "a" 1), (.newestFirst, .put "a" 2)]

def twoIdsApart : List (HashOrder × Step AckID TimePoint) :=
  [(.newestFirst, .put "a" 1), (.newestFirst, .merge), (.newestFirst, .put "b" 2)]

def twoIdsTogether : List (HashOrder × Step AckID TimePoint) :=
  [(.newestFirst, .put "a" 1), (.newestFirst, .put "b" 2)]

/-- Where no id comes back the runs agree, where one does they need not. -/
theorem watches_agree_iff_twoIds :
    (∀ k, nextAckOf (((create "s" emptyDistribution).watch twoIdsApart).mergeInput
          .newestFirst).keepAliveAckIDs k =
        nextAckOf (((create "s" emptyDistribution).watch twoIdsTogether).mergeInput
          .newestFirst).keepAliveAckIDs k) ∧
    ¬ (FirstIsLast ((create "s" emptyDistribution).registered apart) ∧
      FirstIsLast ((create "s" emptyDistribution).registered together)) := by
  constructor
  · have hagree := (watches_agree_iff .newestFirst .newestFirst (create "s" emptyDistribution)
      twoIdsApart twoIdsTogether rfl).mpr ⟨?_, ?_⟩
    · exact fun k => (hagree k).1
    all_goals
      refine firstOf_eq_lastOf_iff.mp fun k => ?_
      by_cases ha : k = "a"
      · subst ha
        decide
      · by_cases hb : k = "b"
        · subst hb
          decide
        · simp [registered, watches, create, batches, firstOf, lastOf, twoIdsApart,
            twoIdsTogether, Ne.symm ha, Ne.symm hb]
  · intro h
    obtain ⟨hsame, -⟩ := (watches_agree_iff .newestFirst .newestFirst
      (create "s" emptyDistribution) apart together rfl).mpr h "a"
    revert hsame
    decide

/-- Merged apart the id is watched until 1, together until 2. -/
theorem watches_differ :
    ¬ ∀ (order order' : HashOrder) (it : ModAckIterator)
      (steps steps' : List (HashOrder × Step AckID TimePoint)),
      puts (steps.map Prod.snd) = puts (steps'.map Prod.snd) →
      ∀ k, nextAckOf ((it.watch steps).mergeInput order).keepAliveAckIDs k =
          nextAckOf ((it.watch steps').mergeInput order').keepAliveAckIDs k ∧
        nextAckOf ((it.watch steps).mergeInput order).keepAliveAckIDs k =
          lastRegistration it steps k := by
  intro h
  obtain ⟨hsame, -⟩ := h .newestFirst .newestFirst (create "s" emptyDistribution) apart together
    rfl "a"
  revert hsame
  decide

end Pubsuber
