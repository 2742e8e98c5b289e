/-!
# Sorted maps and sets

A finite map is the list of its pairs in strictly increasing key order, and a finite set the list of
its members in strictly increasing order, so that two maps with the same bindings are equal.  Keys
are compared by their `Ord` instance.  Two keys that compare as equal are one key of the map, which
then keeps the spelling that came first.

## Main definitions

* `Ordered` — strictly increasing lists of pairs, with `lookup`, `bind`, `unbind` on such lists.
* `SortedMap` — maps, with `find?`, `insert`, `erase`, `ofList`.
* `SortedSet` — sets, with `contains`, `insert`, `ofList`, `union`, `subset`.
-/

namespace ModuleAtlas

open Std (TransOrd OrientedCmp TransCmp)

/-! ### Lists of pairs in key order -/

namespace Ordered

variable {κ α : Type} [Ord κ]

/-- The value at `k`. -/
def lookup (k : κ) : List (κ × α) → Option α
  | [] => none
  | (k', a) :: l =>
    match compare k k' with
    | .lt => none
    | .eq => some a
    | .gt => lookup k l

/-- Binds `k` to `a`, replacing an earlier value.  A key that is already there keeps its
spelling. -/
def bind (k : κ) (a : α) : List (κ × α) → List (κ × α)
  | [] => [(k, a)]
  | (k', a') :: l =>
    match compare k k' with
    | .lt => (k, a) :: (k', a') :: l
    | .eq => (k', a) :: l
    | .gt => (k', a') :: bind k a l

/-- Removes the binding of `k`. -/
def unbind (k : κ) : List (κ × α) → List (κ × α)
  | [] => []
  | (k', a') :: l =>
    match compare k k' with
    | .lt => (k', a') :: l
    | .eq => l
    | .gt => (k', a') :: unbind k l

/-- The keys of a list of pairs increase strictly. -/
abbrev Increasing (l : List (κ × α)) : Prop := l.Pairwise fun p q => compare p.1 q.1 = .lt

/-- Every key of the result of a binding is an old one or the new one. -/
theorem mem_bind {k : κ} {a : α} {l : List (κ × α)} {p : κ × α} (h : p ∈ bind k a l) :
    p.1 = k ∨ ∃ q ∈ l, q.1 = p.1 := by
  induction l with
  | nil => simp only [bind, List.mem_singleton] at h; exact .inl (by rw [h])
  | cons q l ih =>
    obtain ⟨k', a'⟩ := q
    simp only [bind] at h
    split at h
    · rcases List.mem_cons.1 h with rfl | h
      · exact .inl rfl
      · exact .inr ⟨p, h, rfl⟩
    · rcases List.mem_cons.1 h with rfl | h
      · exact .inr ⟨(k', a'), by simp, rfl⟩
      · exact .inr ⟨p, by simp [h], rfl⟩
    · rcases List.mem_cons.1 h with rfl | h
      · exact .inr ⟨(k', a'), by simp, rfl⟩
      · rcases ih h with h | ⟨q, hq, he⟩
        · exact .inl h
        · exact .inr ⟨q, by simp [hq], he⟩

theorem mem_of_mem_unbind {k : κ} {l : List (κ × α)} {p : κ × α} (h : p ∈ unbind k l) : p ∈ l := by
  induction l with
  | nil => simp [unbind] at h
  | cons q l ih =>
    obtain ⟨k', a'⟩ := q
    simp only [unbind] at h
    split at h
    · exact h
    · simp [h]
    · rcases List.mem_cons.1 h with h | h
      · simp [h]
      · simp [ih h]

theorem increasing_bind [TransOrd κ] {l : List (κ × α)} (h : Increasing l) (k : κ) (a : α) :
    Increasing (bind k a l) := by
  induction l with
  | nil => simp [bind, Increasing]
  | cons q l ih =>
    obtain ⟨k', a'⟩ := q
    obtain ⟨hq, hl⟩ := List.pairwise_cons.1 h
    simp only [bind]
    split
    · rename_i hc
      refine List.pairwise_cons.2 ⟨fun p hp => ?_, h⟩
      rcases List.mem_cons.1 hp with rfl | hp
      · exact hc
      · exact TransCmp.lt_trans hc (hq p hp)
    · exact List.pairwise_cons.2 ⟨hq, hl⟩
    · rename_i hc
      refine List.pairwise_cons.2 ⟨fun p hp => ?_, ih hl⟩
      rcases mem_bind hp with he | ⟨r, hr, he⟩
      · exact he ▸ OrientedCmp.lt_of_gt hc
      · exact he ▸ hq r hr

theorem increasing_unbind {l : List (κ × α)} (h : Increasing l) (k : κ) :
    Increasing (unbind k l) := by
  induction l with
  | nil => simp [unbind, Increasing]
  | cons q l ih =>
    obtain ⟨k', a'⟩ := q
    obtain ⟨hq, hl⟩ := List.pairwise_cons.1 h
    simp only [unbind]
    split
    · exact h
    · exact hl
    · exact List.pairwise_cons.2 ⟨fun p hp => hq p (mem_of_mem_unbind hp), ih hl⟩

@[simp] theorem lookup_nil (k : κ) : lookup k ([] : List (κ × α)) = none := rfl

@[simp] theorem bind_nil (k : κ) (a : α) : bind k a ([] : List (κ × α)) = [(k, a)] := rfl

@[simp] theorem unbind_nil (k : κ) : unbind k ([] : List (κ × α)) = [] := rfl

end Ordered

/-! ### Maps -/

/-- A finite map, as the list of its pairs in increasing key order. -/
structure SortedMap (κ α : Type) [Ord κ] where
  /-- The pairs. -/
  toList : List (κ × α) := []
  /-- The keys increase strictly. -/
  increasing : Ordered.Increasing toList := by exact .nil
  deriving DecidableEq

namespace SortedMap

variable {κ α : Type} [Ord κ]

instance : EmptyCollection (SortedMap κ α) := ⟨{}⟩

instance : Inhabited (SortedMap κ α) := ⟨∅⟩

/-- The value at `k`. -/
def find? (m : SortedMap κ α) (k : κ) : Option α := Ordered.lookup k m.toList

/-- Whether `k` is a key. -/
def contains (m : SortedMap κ α) (k : κ) : Bool := (m.find? k).isSome

/-- Binds `k` to `a`, replacing an earlier value.  A key that is already there keeps its
spelling. -/
def insert [TransOrd κ] (m : SortedMap κ α) (k : κ) (a : α) : SortedMap κ α where
  toList := Ordered.bind k a m.toList
  increasing := Ordered.increasing_bind m.increasing k a

/-- Removes the binding of `k`. -/
def erase (m : SortedMap κ α) (k : κ) : SortedMap κ α where
  toList := Ordered.unbind k m.toList
  increasing := Ordered.increasing_unbind m.increasing k

/-- The map of a list of pairs, of which a later one replaces an earlier one of the same key. -/
def ofList [TransOrd κ] (l : List (κ × α)) : SortedMap κ α :=
  l.foldl (fun m p => m.insert p.1 p.2) ∅

/-- The keys, in order. -/
def keys (m : SortedMap κ α) : List κ := m.toList.map (·.1)

/-- The values, in key order. -/
def values (m : SortedMap κ α) : List α := m.toList.map (·.2)

/-- The number of keys. -/
def size (m : SortedMap κ α) : Nat := m.toList.length

/-- Whether there is no key. -/
def isEmpty (m : SortedMap κ α) : Bool := m.toList.isEmpty

/-- The map with the same keys whose values are changed by `f`. -/
def mapValues {β : Type} (f : κ → α → β) (m : SortedMap κ α) : SortedMap κ β where
  toList := m.toList.map fun p => (p.1, f p.1 p.2)
  increasing := List.pairwise_map.2 m.increasing

@[ext] theorem ext {m n : SortedMap κ α} (h : m.toList = n.toList) : m = n := by
  cases m; cases n; simp_all

@[simp] theorem toList_empty : (∅ : SortedMap κ α).toList = [] := rfl

@[simp] theorem toList_insert [TransOrd κ] (m : SortedMap κ α) (k : κ) (a : α) :
    (m.insert k a).toList = Ordered.bind k a m.toList := rfl

@[simp] theorem toList_erase (m : SortedMap κ α) (k : κ) :
    (m.erase k).toList = Ordered.unbind k m.toList := rfl

@[simp] theorem find?_empty (k : κ) : (∅ : SortedMap κ α).find? k = none := rfl

@[simp] theorem ofList_nil [TransOrd κ] : ofList ([] : List (κ × α)) = ∅ := rfl

@[simp] theorem toList_mapValues {β : Type} (f : κ → α → β) (m : SortedMap κ α) :
    (m.mapValues f).toList = m.toList.map fun p => (p.1, f p.1 p.2) := rfl

end SortedMap

/-! ### Sets -/

/-- A finite set, as the map from its members to nothing. -/
structure SortedSet (α : Type) [Ord α] where
  /-- The members, each with the trivial value. -/
  members : SortedMap α Unit := ∅
  deriving DecidableEq

namespace SortedSet

variable {α : Type} [Ord α]

instance : EmptyCollection (SortedSet α) := ⟨{}⟩

instance : Inhabited (SortedSet α) := ⟨∅⟩

/-- The members, in order. -/
def toList (s : SortedSet α) : List α := s.members.keys

/-- Whether `a` is a member. -/
def contains (s : SortedSet α) (a : α) : Bool := s.members.contains a

/-- Adds `a`.  A member that compares as equal stays as it is. -/
def insert [TransOrd α] (s : SortedSet α) (a : α) : SortedSet α := ⟨s.members.insert a ()⟩

/-- The set of the members of a list. -/
def ofList [TransOrd α] (l : List α) : SortedSet α := l.foldl insert ∅

/-- The members of either set. -/
def union [TransOrd α] (s t : SortedSet α) : SortedSet α := t.toList.foldl insert s

/-- Whether every member of `s` is one of `t`. -/
def subset (s t : SortedSet α) : Bool := s.toList.all t.contains

@[simp] theorem toList_empty : (∅ : SortedSet α).toList = [] := rfl

@[simp] theorem contains_empty (a : α) : (∅ : SortedSet α).contains a = false := rfl

@[simp] theorem ofList_nil [TransOrd α] : ofList ([] : List α) = ∅ := rfl

@[simp] theorem subset_empty (t : SortedSet α) : (∅ : SortedSet α).subset t = true := rfl

end SortedSet

end ModuleAtlas
