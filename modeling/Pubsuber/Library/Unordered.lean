import Mathlib.Data.List.Nodup
import Mathlib.Data.List.Perm.Basic
import Mathlib.Tactic

/-!
# Hash containers up to iteration order

A hash container is represented by its elements in the order in which it
iterates, with pairwise distinct keys. A set is the case `key = id`, a map the
case `key = Prod.fst`. Insertion may rehash and therefore rearranges the
elements by an arbitrary `HashOrder`; erasure and extraction keep the relative
order of the elements that stay.
-/

namespace HashContainer

/-- What insertions do to the iteration order: any rearrangement at all. -/
structure HashOrder where
  iterate : {α : Type} → List α → List α
  perm : ∀ {α : Type} (xs : List α), (iterate xs).Perm xs

namespace HashOrder

/-- New elements in front, nothing else moved. -/
def newestFirst : HashOrder := ⟨id, fun _ => .refl _⟩

variable (order : HashOrder) {α : Type}

@[simp] theorem mem_iterate (xs : List α) (x : α) : x ∈ order.iterate xs ↔ x ∈ xs :=
  (order.perm xs).mem_iff

theorem nodup_map_iterate {κ : Type} (f : α → κ) (xs : List α) :
    ((order.iterate xs).map f).Nodup ↔ (xs.map f).Nodup :=
  ((order.perm xs).map f).nodup_iff

end HashOrder

/-- A container with unique keys; the list order is the iteration order. -/
structure Unordered {κ α : Type} (key : α → κ) where
  toList : List α
  nodup : (toList.map key).Nodup

namespace Unordered

variable {κ α : Type} {key : α → κ}

@[ext] theorem ext {c d : Unordered key} (h : c.toList = d.toList) : c = d := by
  cases c; cases d; simpa using h

def empty : Unordered key := ⟨[], List.nodup_nil⟩

instance : Inhabited (Unordered key) := ⟨empty⟩

def keys (c : Unordered key) : List κ := c.toList.map key

def size (c : Unordered key) : ℕ := c.toList.length

def isEmpty (c : Unordered key) : Bool := c.toList.isEmpty

@[simp] theorem toList_empty : (empty : Unordered key).toList = [] := rfl

@[simp] theorem keys_empty : (empty : Unordered key).keys = [] := rfl

theorem keys_nodup (c : Unordered key) : c.keys.Nodup := c.nodup

theorem mem_keys {c : Unordered key} {k : κ} : k ∈ c.keys ↔ ∃ x ∈ c.toList, key x = k :=
  List.mem_map

theorem key_mem_keys {c : Unordered key} {x : α} (hx : x ∈ c.toList) : key x ∈ c.keys :=
  List.mem_map_of_mem hx

@[simp] theorem isEmpty_iff {c : Unordered key} : c.isEmpty = true ↔ c.keys = [] := by
  simp [isEmpty, keys]

@[simp] theorem size_eq_zero {c : Unordered key} : c.size = 0 ↔ c.keys = [] := by
  simp [size, keys]

theorem eq_of_key_eq {c : Unordered key} {x y : α} (hx : x ∈ c.toList) (hy : y ∈ c.toList)
    (h : key x = key y) : x = y :=
  List.inj_on_of_nodup_map c.nodup hx hy h

variable [DecidableEq κ]

def find? (c : Unordered key) (k : κ) : Option α := c.toList.find? fun x => key x = k

/-- Erasing a key that is absent does nothing. -/
def erase (c : Unordered key) (k : κ) : Unordered key :=
  ⟨c.toList.filter fun x => key x ≠ k, (List.filter_sublist.map key).nodup c.nodup⟩

/-- Insertion unless the key is already there; also what inserting a node does. -/
def emplace (order : HashOrder) (c : Unordered key) (x : α) : Unordered key :=
  if h : key x ∈ c.keys then c
  else ⟨order.iterate (x :: c.toList), by
    rw [order.nodup_map_iterate, List.map_cons]
    exact List.nodup_cons.mpr ⟨h, c.nodup⟩⟩

/-- Insertion that overwrites the element stored under the same key. -/
def insertOrAssign (order : HashOrder) (c : Unordered key) (x : α) : Unordered key :=
  if key x ∈ c.keys then
    ⟨c.toList.map fun y => if key y = key x then x else y, by
      have h : (c.toList.map fun y => if key y = key x then x else y).map key =
          c.toList.map key := by
        rw [List.map_map]
        apply List.map_congr_left
        intro y hy
        by_cases hk : key y = key x <;> simp [hk]
      exact h ▸ c.nodup⟩
  else c.emplace order x

/-- Rewriting the element an iterator points to; its key stays. -/
def update (c : Unordered key) (k : κ) (f : α → α) (hf : ∀ x, key (f x) = key x) :
    Unordered key :=
  ⟨c.toList.map fun x => if key x = k then f x else x, by
    have h : (c.toList.map fun x => if key x = k then f x else x).map key =
        c.toList.map key := by
      rw [List.map_map]
      apply List.map_congr_left
      intro x hx
      by_cases hk : key x = k <;> simp [hk, hf]
    exact h ▸ c.nodup⟩

/-- Moves every element whose key is missing here out of `source`. -/
def merge (order : HashOrder) (c source : Unordered key) : Unordered key :=
  source.toList.foldl (emplace order) c

theorem find?_eq_some {c : Unordered key} {k : κ} {x : α} :
    c.find? k = some x ↔ x ∈ c.toList ∧ key x = k := by
  constructor
  · intro h
    exact ⟨List.mem_of_find?_eq_some h, by simpa using List.find?_some h⟩
  · rintro ⟨hx, rfl⟩
    cases h : c.find? (key x) with
    | none => simpa using List.find?_eq_none.mp h x hx
    | some y =>
      have hy : key y = key x := by simpa using List.find?_some h
      rw [eq_of_key_eq (List.mem_of_find?_eq_some h) hx hy]

theorem find?_eq_none {c : Unordered key} {k : κ} : c.find? k = none ↔ k ∉ c.keys := by
  simp [find?, keys]

theorem find?_isSome {c : Unordered key} {k : κ} : (c.find? k).isSome ↔ k ∈ c.keys := by
  simp [find?, keys]

@[simp] theorem mem_erase {c : Unordered key} {k : κ} {x : α} :
    x ∈ (c.erase k).toList ↔ x ∈ c.toList ∧ key x ≠ k := by
  simp [erase]

@[simp] theorem mem_keys_erase {c : Unordered key} {k j : κ} :
    j ∈ (c.erase k).keys ↔ j ∈ c.keys ∧ j ≠ k := by
  simp only [mem_keys, mem_erase]
  constructor
  · rintro ⟨x, ⟨hx, hk⟩, rfl⟩
    exact ⟨⟨x, hx, rfl⟩, hk⟩
  · rintro ⟨⟨x, hx, rfl⟩, hk⟩
    exact ⟨x, ⟨hx, hk⟩, rfl⟩

theorem find?_erase (c : Unordered key) (k j : κ) :
    (c.erase k).find? j = if j = k then none else c.find? j := by
  ext x
  rw [find?_eq_some, mem_erase]
  split_ifs with h
  · subst h
    simp
  · rw [find?_eq_some]
    constructor
    · rintro ⟨⟨hx, hk⟩, rfl⟩
      exact ⟨hx, rfl⟩
    · rintro ⟨hx, rfl⟩
      exact ⟨⟨hx, h⟩, rfl⟩

variable (order : HashOrder)

theorem emplace_of_mem {c : Unordered key} {x : α} (h : key x ∈ c.keys) :
    c.emplace order x = c := by
  simp [emplace, h]

theorem toList_emplace_of_not_mem {c : Unordered key} {x : α} (h : key x ∉ c.keys) :
    (c.emplace order x).toList = order.iterate (x :: c.toList) := by
  simp [emplace, h]

theorem mem_emplace {c : Unordered key} {x y : α} :
    y ∈ (c.emplace order x).toList ↔ y ∈ c.toList ∨ (y = x ∧ key x ∉ c.keys) := by
  by_cases h : key x ∈ c.keys
  · simp [emplace_of_mem order h, h]
  · simp [toList_emplace_of_not_mem order h, h]
    tauto

@[simp] theorem mem_keys_emplace {c : Unordered key} {x : α} {k : κ} :
    k ∈ (c.emplace order x).keys ↔ k = key x ∨ k ∈ c.keys := by
  by_cases h : key x ∈ c.keys
  · rw [emplace_of_mem order h]
    constructor
    · exact Or.inr
    · rintro (rfl | hk)
      · exact h
      · exact hk
  · simp only [keys, toList_emplace_of_not_mem order h, List.mem_map, HashOrder.mem_iterate,
      List.mem_cons]
    constructor
    · rintro ⟨y, rfl | hy, rfl⟩
      · exact .inl rfl
      · exact .inr ⟨y, hy, rfl⟩
    · rintro (rfl | ⟨y, hy, rfl⟩)
      · exact ⟨x, .inl rfl, rfl⟩
      · exact ⟨y, .inr hy, rfl⟩

theorem find?_emplace (c : Unordered key) (x : α) (k : κ) :
    (c.emplace order x).find? k = (c.find? k).or (if key x = k then some x else none) := by
  ext y
  rw [find?_eq_some, mem_emplace, Option.or_eq_some_iff, find?_eq_some, find?_eq_none]
  constructor
  · rintro ⟨hy | ⟨rfl, hx⟩, rfl⟩
    · exact .inl ⟨hy, rfl⟩
    · exact .inr ⟨hx, by simp⟩
  · rintro (⟨hy, rfl⟩ | ⟨hk, hy⟩)
    · exact ⟨.inl hy, rfl⟩
    · split_ifs at hy with h
      cases hy
      subst h
      exact ⟨.inr ⟨rfl, hk⟩, rfl⟩

theorem mem_insertOrAssign {c : Unordered key} {x y : α} :
    y ∈ (c.insertOrAssign order x).toList ↔ y = x ∨ (y ∈ c.toList ∧ key y ≠ key x) := by
  by_cases h : key x ∈ c.keys
  · simp only [insertOrAssign, if_pos h, List.mem_map]
    constructor
    · rintro ⟨z, hz, rfl⟩
      by_cases hk : key z = key x
      · simp [hk]
      · simp [hk, hz]
    · rintro (rfl | ⟨hy, hk⟩)
      · obtain ⟨z, hz, hzk⟩ := mem_keys.mp h
        exact ⟨z, hz, by simp [hzk]⟩
      · exact ⟨y, hy, by simp [hk]⟩
  · simp only [insertOrAssign, if_neg h, toList_emplace_of_not_mem order h,
      HashOrder.mem_iterate, List.mem_cons]
    constructor
    · rintro (rfl | hy)
      · exact .inl rfl
      · exact .inr ⟨hy, fun hk => h (hk ▸ key_mem_keys hy)⟩
    · rintro (rfl | hy)
      · exact .inl rfl
      · exact .inr hy.1

@[simp] theorem mem_keys_insertOrAssign {c : Unordered key} {x : α} {k : κ} :
    k ∈ (c.insertOrAssign order x).keys ↔ k = key x ∨ k ∈ c.keys := by
  simp only [mem_keys, mem_insertOrAssign]
  constructor
  · rintro ⟨y, rfl | ⟨hy, -⟩, rfl⟩
    · exact .inl rfl
    · exact .inr ⟨y, hy, rfl⟩
  · rintro (rfl | ⟨y, hy, rfl⟩)
    · exact ⟨x, .inl rfl, rfl⟩
    · by_cases hk : key y = key x
      · exact ⟨x, .inl rfl, hk.symm⟩
      · exact ⟨y, .inr ⟨hy, hk⟩, rfl⟩

theorem find?_insertOrAssign (c : Unordered key) (x : α) (k : κ) :
    (c.insertOrAssign order x).find? k = if key x = k then some x else c.find? k := by
  ext y
  rw [find?_eq_some, mem_insertOrAssign]
  split_ifs with h
  · subst h
    constructor
    · rintro ⟨rfl | ⟨-, hne⟩, hk⟩
      · rfl
      · exact absurd hk hne
    · intro hy
      cases hy
      exact ⟨.inl rfl, rfl⟩
  · rw [find?_eq_some]
    constructor
    · rintro ⟨rfl | ⟨hy, -⟩, hk⟩
      · exact absurd hk h
      · exact ⟨hy, hk⟩
    · rintro ⟨hy, rfl⟩
      exact ⟨.inr ⟨hy, fun hk => h hk.symm⟩, rfl⟩

theorem keys_update (c : Unordered key) (k : κ) (f : α → α) (hf : ∀ x, key (f x) = key x) :
    (c.update k f hf).keys = c.keys := by
  simp only [keys, update, List.map_map]
  apply List.map_congr_left
  intro x hx
  by_cases hk : key x = k <;> simp [hk, hf]

theorem find?_update (c : Unordered key) (k : κ) (f : α → α) (hf : ∀ x, key (f x) = key x)
    (j : κ) :
    (c.update k f hf).find? j = if j = k then (c.find? j).map f else c.find? j := by
  ext y
  rw [find?_eq_some]
  simp only [update, List.mem_map]
  split_ifs with h
  · subst h
    rw [Option.map_eq_some_iff]
    constructor
    · rintro ⟨⟨x, hx, rfl⟩, hk⟩
      by_cases hxj : key x = j
      · exact ⟨x, find?_eq_some.mpr ⟨hx, hxj⟩, by rw [if_pos hxj]⟩
      · rw [if_neg hxj] at hk
        exact absurd hk hxj
    · rintro ⟨x, hx, rfl⟩
      obtain ⟨hx, hxj⟩ := find?_eq_some.mp hx
      exact ⟨⟨x, hx, by rw [if_pos hxj]⟩, (hf x).trans hxj⟩
  · rw [find?_eq_some]
    constructor
    · rintro ⟨⟨x, hx, rfl⟩, hk⟩
      by_cases hxk : key x = k
      · rw [if_pos hxk, hf] at hk
        exact absurd (hk.symm.trans hxk) h
      · rw [if_neg hxk] at hk ⊢
        exact ⟨hx, hk⟩
    · rintro ⟨hy, hk⟩
      exact ⟨⟨y, hy, by rw [if_neg (by rw [hk]; exact h)]⟩, hk⟩

theorem find?_foldl_emplace (xs : List α) (c : Unordered key) (k : κ) :
    (xs.foldl (emplace order) c).find? k = (c.find? k).or (xs.find? fun x => key x = k) := by
  induction xs generalizing c with
  | nil => simp
  | cons x xs ih =>
    rw [List.foldl_cons, ih, find?_emplace, Option.or_assoc]
    congr 1
    by_cases h : key x = k <;> simp [h]

theorem find?_merge (c source : Unordered key) (k : κ) :
    (c.merge order source).find? k = (c.find? k).or (source.find? k) :=
  find?_foldl_emplace order source.toList c k

@[simp] theorem mem_keys_merge {c source : Unordered key} {k : κ} :
    k ∈ (c.merge order source).keys ↔ k ∈ c.keys ∨ k ∈ source.keys := by
  rw [← find?_isSome, find?_merge, Option.isSome_or, Bool.or_eq_true, find?_isSome, find?_isSome]

theorem mem_keys_foldl_erase (ks : List κ) (c : Unordered key) (k : κ) :
    k ∈ (ks.foldl erase c).keys ↔ k ∈ c.keys ∧ k ∉ ks := by
  induction ks generalizing c with
  | nil => simp
  | cons j ks ih =>
    rw [List.foldl_cons, ih, mem_keys_erase, List.mem_cons]
    tauto

theorem foldl_erase_subset (ks : List κ) (c : Unordered key) :
    (ks.foldl erase c).toList ⊆ c.toList := by
  induction ks generalizing c with
  | nil => exact List.Subset.refl _
  | cons k ks ih => exact fun _ hx => (mem_erase.mp (ih (c.erase k) hx)).1

theorem size_erase_le (c : Unordered key) (k : κ) : (c.erase k).size ≤ c.size :=
  List.length_filter_le _ _

theorem size_foldl_erase_le (ks : List κ) (c : Unordered key) :
    (ks.foldl erase c).size ≤ c.size := by
  induction ks generalizing c with
  | nil => exact le_rfl
  | cons k ks ih => exact (ih (c.erase k)).trans (c.size_erase_le k)

theorem size_emplace_le (c : Unordered key) (x : α) :
    (c.emplace order x).size ≤ c.size + 1 := by
  by_cases h : key x ∈ c.keys
  · rw [emplace_of_mem order h]
    exact Nat.le_succ _
  · unfold size
    rw [toList_emplace_of_not_mem order h, (order.perm _).length_eq, List.length_cons]

theorem size_insertOrAssign_le (c : Unordered key) (x : α) :
    (c.insertOrAssign order x).size ≤ c.size + 1 := by
  unfold insertOrAssign
  split_ifs
  · unfold size
    rw [List.length_map]
    exact Nat.le_succ _
  · exact c.size_emplace_le order x

theorem size_merge_le (c source : Unordered key) :
    (c.merge order source).size ≤ c.size + source.size := by
  have hfold : ∀ (xs : List α) (c : Unordered key),
      (xs.foldl (emplace order) c).size ≤ c.size + xs.length := by
    intro xs
    induction xs with
    | nil => exact fun _ => le_rfl
    | cons x xs ih =>
      intro c
      have hhead := c.size_emplace_le order x
      have htail := ih (c.emplace order x)
      rw [List.foldl_cons, List.length_cons]
      omega
  exact hfold source.toList c

theorem find?_foldl_erase (ks : List κ) (c : Unordered key) (k : κ) :
    (ks.foldl erase c).find? k = if k ∈ ks then none else c.find? k := by
  induction ks generalizing c with
  | nil => simp
  | cons j ks ih =>
    rw [List.foldl_cons, ih, find?_erase]
    by_cases h : k = j <;> simp [h]

section Map

variable {κ α : Type} [DecidableEq κ] (order : HashOrder)

def lookup (c : Unordered (Prod.fst : κ × α → κ)) (k : κ) : Option α :=
  (c.find? k).map Prod.snd

variable (c source : Unordered (Prod.fst : κ × α → κ)) (k j : κ)

@[simp] theorem lookup_empty : (empty : Unordered (Prod.fst : κ × α → κ)).lookup k = none := rfl

theorem lookup_eq_none {c : Unordered (Prod.fst : κ × α → κ)} {k : κ} :
    c.lookup k = none ↔ k ∉ c.keys := by
  rw [lookup, Option.map_eq_none_iff, find?_eq_none]

theorem lookup_isSome {c : Unordered (Prod.fst : κ × α → κ)} {k : κ} :
    (c.lookup k).isSome ↔ k ∈ c.keys := by
  rw [lookup, Option.isSome_map, find?_isSome]

theorem lookup_eq_some {c : Unordered (Prod.fst : κ × α → κ)} {k : κ} {a : α} :
    c.lookup k = some a ↔ (k, a) ∈ c.toList := by
  rw [lookup, Option.map_eq_some_iff]
  constructor
  · rintro ⟨x, hx, rfl⟩
    obtain ⟨hmem, rfl⟩ := find?_eq_some.mp hx
    exact hmem
  · intro h
    exact ⟨(k, a), find?_eq_some.mpr ⟨h, rfl⟩, rfl⟩

theorem lookup_update (f : α → α) :
    (c.update k (fun entry => (entry.1, f entry.2)) fun _ => rfl).lookup j =
      if j = k then (c.lookup j).map f else c.lookup j := by
  rw [lookup, find?_update]
  split_ifs
  · rw [lookup, Option.map_map, Option.map_map]
    rfl
  · rfl

theorem lookup_foldl_erase (ks : List κ) :
    (ks.foldl erase c).lookup k = if k ∈ ks then none else c.lookup k := by
  rw [lookup, find?_foldl_erase]
  split_ifs <;> rfl

theorem lookup_insertOrAssign (a : α) :
    (c.insertOrAssign order (j, a)).lookup k = if j = k then some a else c.lookup k := by
  rw [lookup, find?_insertOrAssign]
  split_ifs <;> rfl

theorem lookup_merge : (c.merge order source).lookup k = (c.lookup k).or (source.lookup k) := by
  rw [lookup, find?_merge, Option.map_or]
  rfl

end Map

end Unordered
end HashContainer
