import ModuleAtlas.SortedMap

/-!
# Laws of sorted maps and sets

Binding a key changes the value of that key alone, what a sorted map finds is what its list of pairs
holds, and building a map from its own pairs gives the map back.

## Main results

* `Ordered.lookup_bind`, `Ordered.lookup_unbind`, `Ordered.lookup_eq_some_iff` — values after a
  binding and after its removal, and values as pairs.
* `Ordered.mem_bind_cases` — the pairs after a binding.
* `Ordered.compare_append`, `Ordered.compare_append_of_ne_nil` — the order of keys that are lists.
* `SortedMap.ofList_toList` — a map is the map of its pairs.
* `SortedSet.mem_insert_cases`, `SortedSet.mem_union_cases` — the members of a set that was built.
* `SortedMap.eq_of_find?_eq`, `SortedSet.eq_of_mem_iff` — maps and sets are known by their values
  and members.
-/

namespace ModuleAtlas

open Std (TransOrd OrientedCmp TransCmp LawfulEqOrd ReflCmp)

namespace Ordered

variable {κ α : Type} [Ord κ]

/-! ### Values -/

theorem lookup_bind [TransOrd κ] (k' k : κ) (a : α) (l : List (κ × α)) :
    lookup k' (bind k a l) = if compare k' k = .eq then some a else lookup k' l := by
  induction l with
  | nil =>
    simp only [bind, lookup]
    cases h : compare k' k <;> simp
  | cons q l ih =>
    obtain ⟨j, b⟩ := q
    simp only [bind]
    cases hk : compare k j with
    | lt =>
      simp only [lookup]
      cases h : compare k' k with
      | lt => simp [TransCmp.lt_trans h hk]
      | eq => simp
      | gt => simp
    | eq =>
      have hc : compare k' k = compare k' j := TransCmp.congr_right hk
      simp only [lookup, ← hc]
      cases h : compare k' k <;> simp
    | gt =>
      simp only [lookup, ih]
      cases h : compare k' j with
      | lt =>
        have hlt : compare k' k = .lt := TransCmp.lt_trans h (OrientedCmp.lt_of_gt hk)
        simp [hlt]
      | eq =>
        -- `k` lies beyond `j`, which compares as `k'`
        have hgt : compare k' k = .lt := by
          have hc : compare k' k = compare j k := TransCmp.congr_left h
          rw [hc]
          exact OrientedCmp.lt_of_gt hk
        simp [hgt]
      | gt => rfl

theorem lookup_bind_self [TransOrd κ] (k : κ) (a : α) (l : List (κ × α)) :
    lookup k (bind k a l) = some a := by
  rw [lookup_bind]
  simp

/-- What a key finds is the value of a pair whose key compares as equal. -/
theorem exists_mem_of_lookup {k : κ} {a : α} {l : List (κ × α)} (h : lookup k l = some a) :
    ∃ k', (k', a) ∈ l ∧ compare k k' = .eq := by
  induction l with
  | nil => simp at h
  | cons q l ih =>
    obtain ⟨j, b⟩ := q
    rw [lookup] at h
    cases hc : compare k j with
    | lt => rw [hc] at h; simp at h
    | eq =>
      rw [hc] at h
      have hb : b = a := Option.some.inj h
      exact ⟨j, by simp [hb], hc⟩
    | gt =>
      rw [hc] at h
      obtain ⟨k', hm, he⟩ := ih h
      exact ⟨k', List.mem_cons_of_mem _ hm, he⟩

theorem lookup_of_mem [TransOrd κ] {l : List (κ × α)} (hl : Increasing l) {k k' : κ} {a : α}
    (hm : (k', a) ∈ l) (he : compare k k' = .eq) : lookup k l = some a := by
  induction l with
  | nil => simp at hm
  | cons q l ih =>
    obtain ⟨j, b⟩ := q
    obtain ⟨hj, hl⟩ := List.pairwise_cons.1 hl
    rw [lookup]
    rcases List.mem_cons.1 hm with h | h
    · obtain ⟨rfl, rfl⟩ := Prod.mk.inj h
      rw [he]
    · have hgt : compare k j = .gt := by
        have hc : compare k j = compare k' j := TransCmp.congr_left he
        rw [hc]
        exact OrientedCmp.gt_of_lt (hj _ h)
      rw [hgt]
      exact ih hl h

theorem lookup_eq_some_iff [TransOrd κ] {l : List (κ × α)} (hl : Increasing l) {k : κ} {a : α} :
    lookup k l = some a ↔ ∃ k', (k', a) ∈ l ∧ compare k k' = .eq :=
  ⟨exists_mem_of_lookup, fun ⟨_, hm, he⟩ => lookup_of_mem hl hm he⟩

/-- Where keys that compare as equal are equal, a list of pairs finds what it holds. -/
theorem lookup_eq_some_iff_mem [TransOrd κ] [LawfulEqOrd κ] {l : List (κ × α)} (hl : Increasing l)
    {k : κ} {a : α} : lookup k l = some a ↔ (k, a) ∈ l := by
  rw [lookup_eq_some_iff hl]
  constructor
  · rintro ⟨k', hm, he⟩
    rwa [LawfulEqOrd.compare_eq_iff_eq.1 he]
  · intro hm
    exact ⟨k, hm, ReflCmp.compare_self⟩

/-- Where keys that compare as equal are equal, exactly the keys of a list of pairs find a value. -/
theorem isSome_lookup_iff [TransOrd κ] [LawfulEqOrd κ] {l : List (κ × α)}
    (hl : Increasing l) {k : κ} : (lookup k l).isSome ↔ k ∈ l.map (·.1) := by
  rw [Option.isSome_iff_exists, List.mem_map]
  constructor
  · rintro ⟨a, ha⟩
    exact ⟨(k, a), (lookup_eq_some_iff_mem hl).1 ha, rfl⟩
  · rintro ⟨⟨k', a⟩, hm, rfl⟩
    exact ⟨a, (lookup_eq_some_iff_mem hl).2 hm⟩

/-- A key below all keys finds nothing. -/
theorem lookup_eq_none_of_lt {l : List (κ × α)} {k : κ} (h : ∀ q ∈ l, compare k q.1 = .lt) :
    lookup k l = none := by
  cases l with
  | nil => rfl
  | cons q l => simp only [lookup, h q List.mem_cons_self]

theorem lookup_unbind [TransOrd κ] {l : List (κ × α)} (hl : Increasing l) (k' k : κ) :
    lookup k' (unbind k l) = if compare k' k = .eq then none else lookup k' l := by
  induction l with
  | nil => simp
  | cons q l ih =>
    obtain ⟨j, b⟩ := q
    obtain ⟨hj, hl⟩ := List.pairwise_cons.1 hl
    simp only [unbind]
    cases hk : compare k j with
    | lt =>
      -- the key is not there, since it lies before all keys
      show lookup k' ((j, b) :: l) = _
      by_cases he : compare k' k = .eq
      · have hc : compare k' j = compare k j := TransCmp.congr_left he
        rw [if_pos he, lookup, hc, hk]
      · rw [if_neg he]
    | eq =>
      have hc : compare k' k = compare k' j := TransCmp.congr_right hk
      show lookup k' l = _
      rw [hc, lookup]
      cases h : compare k' j with
      | lt => exact lookup_eq_none_of_lt fun q hq => TransCmp.lt_trans h (hj q hq)
      | eq =>
        apply lookup_eq_none_of_lt
        intro q hq
        have hq' : compare k' q.1 = compare j q.1 := TransCmp.congr_left h
        rw [hq']
        exact hj q hq
      | gt => rfl
    | gt =>
      simp only [lookup, ih hl]
      cases h : compare k' j with
      | lt =>
        have hlt : compare k' k = .lt := TransCmp.lt_trans h (OrientedCmp.lt_of_gt hk)
        simp [hlt]
      | eq =>
        have hc : compare k' k = compare j k := TransCmp.congr_left h
        have hlt : compare k' k = .lt := hc.trans (OrientedCmp.lt_of_gt hk)
        simp [hlt]
      | gt => rfl

/-! ### Pairs -/

/-- The pairs after a binding: a pair of the bound value whose key is the new one, or an old
spelling of it, and the old pairs of all other keys. -/
theorem mem_bind_cases [TransOrd κ] {l : List (κ × α)} (hl : Increasing l) {k : κ} {a : α}
    {p : κ × α} (h : p ∈ bind k a l) :
    (p = (k, a) ∨ p.2 = a ∧ compare k p.1 = .eq ∧ ∃ b, (p.1, b) ∈ l)
      ∨ p ∈ l ∧ compare k p.1 ≠ .eq := by
  induction l with
  | nil =>
    rw [bind_nil, List.mem_singleton] at h
    exact .inl (.inl h)
  | cons q l ih =>
    obtain ⟨j, b⟩ := q
    obtain ⟨hj, hl⟩ := List.pairwise_cons.1 hl
    simp only [bind] at h
    cases hk : compare k j with
    | lt =>
      simp only [hk, List.mem_cons] at h
      rcases h with rfl | rfl | h
      · exact .inl (.inl rfl)
      · exact .inr ⟨by simp, by simp [hk]⟩
      · have hlt : compare k p.1 = .lt := TransCmp.lt_trans hk (hj p h)
        exact .inr ⟨by simp [h], by simp [hlt]⟩
    | eq =>
      -- the pair keeps the old spelling of the key
      simp only [hk, List.mem_cons] at h
      rcases h with rfl | h
      · exact .inl (.inr ⟨rfl, hk, b, by simp⟩)
      · have hlt : compare k p.1 = .lt := by
          have hc : compare k p.1 = compare j p.1 := TransCmp.congr_left hk
          rw [hc]
          exact hj p h
        exact .inr ⟨by simp [h], by simp [hlt]⟩
    | gt =>
      simp only [hk, List.mem_cons] at h
      rcases h with rfl | h
      · exact .inr ⟨by simp, by simp [hk]⟩
      · rcases ih hl h with (h | ⟨h, he, c, hc⟩) | ⟨h, hne⟩
        · exact .inl (.inl h)
        · exact .inl (.inr ⟨h, he, c, by simp [hc]⟩)
        · exact .inr ⟨by simp [h], hne⟩

/-- A binding keeps every key that was there as it is spelt. -/
theorem exists_mem_bind_of_mem (k : κ) (a : α) {l : List (κ × α)} {p : κ × α} (h : p ∈ l) :
    ∃ b, (p.1, b) ∈ bind k a l := by
  induction l with
  | nil => simp at h
  | cons q l ih =>
    obtain ⟨j, b⟩ := q
    simp only [bind]
    cases hk : compare k j with
    | lt => exact ⟨p.2, List.mem_cons_of_mem _ h⟩
    | eq =>
      rcases List.mem_cons.1 h with rfl | h
      · exact ⟨a, by simp⟩
      · exact ⟨p.2, by simp [h]⟩
    | gt =>
      rcases List.mem_cons.1 h with rfl | h
      · exact ⟨b, by simp⟩
      · obtain ⟨c, hc⟩ := ih h
        exact ⟨c, by simp [hc]⟩

/-- A binding keeps every pair of another key. -/
theorem mem_bind_of_ne {k : κ} (a : α) {l : List (κ × α)} {p : κ × α} (h : p ∈ l)
    (hne : compare k p.1 ≠ .eq) : p ∈ bind k a l := by
  induction l with
  | nil => simp at h
  | cons q l ih =>
    obtain ⟨j, b⟩ := q
    simp only [bind]
    cases hk : compare k j with
    | lt => exact List.mem_cons_of_mem _ h
    | eq =>
      rcases List.mem_cons.1 h with rfl | h
      · exact absurd hk hne
      · exact List.mem_cons_of_mem _ h
    | gt =>
      rcases List.mem_cons.1 h with rfl | h
      · exact List.mem_cons_self
      · exact List.mem_cons_of_mem _ (ih h)

/-- A key beyond all keys is bound at the end. -/
theorem bind_eq_append [TransOrd κ] {l : List (κ × α)} {k : κ}
    (h : ∀ p ∈ l, compare p.1 k = .lt) (a : α) : bind k a l = l ++ [(k, a)] := by
  induction l with
  | nil => rfl
  | cons q l ih =>
    obtain ⟨j, b⟩ := q
    have hk : compare k j = .gt := OrientedCmp.gt_of_lt (h (j, b) (by simp))
    rw [bind, hk, ih fun p hp => h p (by simp [hp])]
    rfl

/-- Increasing lists that have the same pairs are equal. -/
theorem eq_of_mem_iff [TransOrd κ] {l m : List (κ × α)} (hl : Increasing l) (hm : Increasing m)
    (h : ∀ p, p ∈ l ↔ p ∈ m) : l = m := by
  have hne : ∀ {p q : κ × α}, compare p.1 q.1 = .lt → p ≠ q := by
    rintro p q hlt rfl
    exact absurd (ReflCmp.compare_self.symm.trans hlt) (by decide)
  have hperm : l.Perm m := (List.perm_ext_iff_of_nodup (hl.imp hne) (hm.imp hne)).2 h
  refine List.Perm.eq_of_pairwise ?_ hl hm hperm
  intro p q _ _ hpq hqp
  exact absurd ((OrientedCmp.gt_of_lt hpq).symm.trans hqp) (by decide)

/-! ### Keys that are lists -/

section ListKeys

variable {β : Type} [Ord β] [TransOrd β]

/-- A common beginning does not matter. -/
theorem compare_append (above l m : List β) : compare (above ++ l) (above ++ m) = compare l m := by
  induction above with
  | nil => rfl
  | cons a above ih => simp [ih]

/-- A list goes before every longer one that it is the beginning of. -/
theorem compare_append_of_ne_nil (above : List β) {l : List β} (hl : l ≠ []) :
    compare above (above ++ l) = .lt := by
  obtain ⟨a, l, rfl⟩ := List.exists_cons_of_ne_nil hl
  calc
    compare above (above ++ a :: l) = compare (above ++ []) (above ++ a :: l) := by
      rw [List.append_nil]
    _ = .lt := compare_append above [] (a :: l)

/-- Of two lists that go on differently, the one with the smaller entry goes first. -/
theorem compare_append_cons_of_lt (above : List β) {a b : β} (h : compare a b = .lt)
    (l m : List β) : compare (above ++ a :: l) (above ++ b :: m) = .lt := by
  rw [compare_append, List.compare_cons_cons, h, Ordering.lt_then]

end ListKeys

end Ordered

namespace SortedMap

variable {κ α : Type} [Ord κ] [TransOrd κ]

theorem find?_insert (m : SortedMap κ α) (k' k : κ) (a : α) :
    (m.insert k a).find? k' = if compare k' k = .eq then some a else m.find? k' :=
  Ordered.lookup_bind k' k a m.toList

@[simp] theorem find?_insert_self (m : SortedMap κ α) (k : κ) (a : α) :
    (m.insert k a).find? k = some a := Ordered.lookup_bind_self k a m.toList

omit [TransOrd κ] in
theorem contains_eq_false_iff {m : SortedMap κ α} {k : κ} : m.contains k = false ↔
    m.find? k = none := by
  rw [contains, Option.isSome_eq_false_iff, Option.isNone_iff_eq_none]

theorem find?_eq_some_iff_mem [LawfulEqOrd κ] {m : SortedMap κ α} {k : κ} {a : α} :
    m.find? k = some a ↔ (k, a) ∈ m.toList := Ordered.lookup_eq_some_iff_mem m.increasing

/-- Where keys that compare as equal are equal, maps that find the same values are equal. -/
theorem eq_of_find?_eq [LawfulEqOrd κ] {m n : SortedMap κ α} (h : ∀ k, m.find? k = n.find? k) :
    m = n := by
  apply SortedMap.ext
  apply Ordered.eq_of_mem_iff m.increasing n.increasing
  rintro ⟨k, a⟩
  rw [← find?_eq_some_iff_mem, ← find?_eq_some_iff_mem, h]

/-- Binding other keys changes nothing at a key. -/
theorem find?_foldl_insert_of_ne {k : κ} {l : List (κ × α)} : ∀ {m : SortedMap κ α},
    (∀ p ∈ l, compare k p.1 ≠ .eq) → (l.foldl (fun m p => m.insert p.1 p.2) m).find? k =
      m.find? k := by
  induction l with
  | nil => intro m _; rfl
  | cons q l ih =>
    intro m h
    rw [List.foldl_cons, ih fun p hp => h p (List.mem_cons_of_mem q hp), find?_insert,
      if_neg (h q List.mem_cons_self)]

/-- Binding a key, always to the same value, binds it to that value. -/
theorem find?_foldl_insert_of_eq {k : κ} {a : α} {l : List (κ × α)} : ∀ {m : SortedMap κ α},
    (∃ p ∈ l, compare k p.1 = .eq) → (∀ p ∈ l, compare k p.1 = .eq → p.2 = a) →
      (l.foldl (fun m p => m.insert p.1 p.2) m).find? k = some a := by
  induction l with
  | nil => intro m h _; simp at h
  | cons q l ih =>
    intro m hbound hsame
    rw [List.foldl_cons]
    by_cases hlater : ∃ p ∈ l, compare k p.1 = .eq
    · exact ih hlater fun p hp => hsame p (List.mem_cons_of_mem q hp)
    · have hq : compare k q.1 = .eq := by
        obtain ⟨p, hp, hk⟩ := hbound
        rcases List.mem_cons.1 hp with rfl | hp
        · exact hk
        · exact absurd ⟨p, hp, hk⟩ hlater
      rw [find?_foldl_insert_of_ne fun p hp hk => hlater ⟨p, hp, hk⟩, find?_insert, if_pos hq,
        hsame q List.mem_cons_self hq]

/-- A key is bound as it was spelt when it was bound first. -/
theorem mem_keys_insert_cases {m : SortedMap κ α} {k k' : κ} {a : α}
    (h : k' ∈ (m.insert k a).keys) : k' = k ∨ k' ∈ m.keys := by
  obtain ⟨p, hp, rfl⟩ := List.mem_map.1 h
  rcases Ordered.mem_bind_cases m.increasing hp with (rfl | ⟨-, -, b, hb⟩) | ⟨hold, -⟩
  · exact .inl rfl
  · exact .inr (List.mem_map.2 ⟨_, hb, rfl⟩)
  · exact .inr (List.mem_map.2 ⟨p, hold, rfl⟩)

theorem mem_keys_foldl_insert_cases {k : κ} {l : List (κ × α)} : ∀ {m : SortedMap κ α},
    k ∈ (l.foldl (fun m p => m.insert p.1 p.2) m).keys → (∃ a, (k, a) ∈ l) ∨ k ∈ m.keys := by
  induction l with
  | nil => intro m h; exact .inr h
  | cons q l ih =>
    intro m h
    rcases ih h with ⟨a, ha⟩ | h
    · exact .inl ⟨a, List.mem_cons_of_mem q ha⟩
    · rcases mem_keys_insert_cases h with rfl | h
      · exact .inl ⟨q.2, List.mem_cons_self⟩
      · exact .inr h

/-- Binding increasing keys one after the other appends their pairs. -/
theorem toList_foldl_insert (l : List (κ × α)) (m : SortedMap κ α)
    (h : Ordered.Increasing (m.toList ++ l)) :
    (l.foldl (fun m p => m.insert p.1 p.2) m).toList = m.toList ++ l := by
  induction l generalizing m with
  | nil => simp
  | cons p l ih =>
    have hp : Ordered.bind p.1 p.2 m.toList = m.toList ++ [p] :=
      Ordered.bind_eq_append (fun q hq => (List.pairwise_append.1 h).2.2 q hq p (by simp)) p.2
    rw [List.foldl_cons, ih]
    · rw [toList_insert, hp, List.append_assoc, List.singleton_append]
    · rw [toList_insert, hp, List.append_assoc, List.singleton_append]
      exact h

/-- A map is the map of its pairs. -/
theorem ofList_toList (m : SortedMap κ α) : ofList m.toList = m := by
  apply SortedMap.ext
  have h := toList_foldl_insert m.toList ∅ (by simpa using m.increasing)
  simpa [ofList] using h

end SortedMap

namespace SortedSet

variable {α : Type} [Ord α]

theorem mem_toList_iff {s : SortedSet α} {a : α} : a ∈ s.toList ↔
    ∃ u, (a, u) ∈ s.members.toList := by
  rw [toList, SortedMap.keys, List.mem_map]
  constructor
  · rintro ⟨⟨b, u⟩, hb, rfl⟩
    exact ⟨u, hb⟩
  · rintro ⟨u, h⟩
    exact ⟨(a, u), h, rfl⟩

theorem pairwise_toList (s : SortedSet α) : s.toList.Pairwise fun a b => compare a b = .lt :=
  List.pairwise_map.2 s.members.increasing

variable [TransOrd α]

theorem mem_insert_cases {s : SortedSet α} {a b : α} (h : b ∈ (s.insert a).toList) :
    b = a ∨ b ∈ s.toList := by
  obtain ⟨u, hu⟩ := mem_toList_iff.1 h
  rcases Ordered.mem_bind_cases s.members.increasing hu with (h | ⟨-, -, v, hv⟩) | ⟨h, -⟩
  · exact .inl (Prod.mk.inj h).1
  · exact .inr (mem_toList_iff.2 ⟨v, hv⟩)
  · exact .inr (mem_toList_iff.2 ⟨u, h⟩)

theorem mem_insert_of_mem {s : SortedSet α} {b : α} (h : b ∈ s.toList) (a : α) :
    b ∈ (s.insert a).toList := by
  obtain ⟨u, hu⟩ := mem_toList_iff.1 h
  exact mem_toList_iff.2 (Ordered.exists_mem_bind_of_mem a () hu)

/-- What is inserted is found, possibly in another spelling. -/
theorem exists_mem_insert (s : SortedSet α) (a : α) : ∃ b ∈ (s.insert a).toList,
    compare a b = .eq := by
  obtain ⟨b, hb, he⟩ :=
    Ordered.exists_mem_of_lookup (Ordered.lookup_bind_self a () s.members.toList)
  exact ⟨b, mem_toList_iff.2 ⟨(), hb⟩, he⟩

theorem mem_foldl_insert_cases {l : List α} {s : SortedSet α} {b : α}
    (h : b ∈ (l.foldl insert s).toList) : b ∈ s.toList ∨ b ∈ l := by
  induction l generalizing s with
  | nil => exact .inl h
  | cons a l ih =>
    rcases ih h with h | h
    · rcases mem_insert_cases h with rfl | h
      · exact .inr List.mem_cons_self
      · exact .inl h
    · exact .inr (List.mem_cons_of_mem _ h)

theorem mem_foldl_insert_of_mem {s : SortedSet α} {b : α} (h : b ∈ s.toList) (l : List α) :
    b ∈ (l.foldl insert s).toList := by
  induction l generalizing s with
  | nil => exact h
  | cons a l ih => exact ih (mem_insert_of_mem h a)

theorem mem_of_mem_ofList {l : List α} {a : α} (h : a ∈ (ofList l).toList) : a ∈ l := by
  rcases mem_foldl_insert_cases h with h | h
  · simp at h
  · exact h

theorem mem_union_cases {s t : SortedSet α} {a : α} (h : a ∈ (s.union t).toList) :
    a ∈ s.toList ∨ a ∈ t.toList := mem_foldl_insert_cases h

/-- A union keeps the members of the first set as they are spelt. -/
theorem mem_union_of_mem_left {s : SortedSet α} {a : α} (h : a ∈ s.toList) (t : SortedSet α) :
    a ∈ (s.union t).toList := mem_foldl_insert_of_mem h t.toList

/-- What is inserted among others is found, possibly in another spelling. -/
theorem exists_mem_foldl_insert {l : List α} {a : α} (h : a ∈ l) :
    ∀ s : SortedSet α, ∃ b ∈ (l.foldl insert s).toList, compare a b = .eq := by
  induction l with
  | nil => simp at h
  | cons b l ih =>
    intro s
    rcases List.mem_cons.1 h with rfl | h
    · obtain ⟨b, hb, he⟩ := exists_mem_insert s a
      exact ⟨b, mem_foldl_insert_of_mem hb l, he⟩
    · exact ih h (s.insert b)

/-- Where members that compare as equal are equal, the set of a list has its members. -/
theorem mem_ofList_iff [LawfulEqOrd α] {l : List α} {a : α} : a ∈ (ofList l).toList ↔ a ∈ l := by
  refine ⟨mem_of_mem_ofList, fun h => ?_⟩
  obtain ⟨b, hb, he⟩ := exists_mem_foldl_insert h ∅
  rwa [LawfulEqOrd.compare_eq_iff_eq.1 he]

theorem exists_mem_union_right (s : SortedSet α) {l : List α} {a : α} (h : a ∈ l) :
    ∃ b ∈ (s.union (ofList l)).toList, compare a b = .eq := by
  obtain ⟨b, hb, hab⟩ := exists_mem_foldl_insert h ∅
  obtain ⟨c, hc, hbc⟩ := exists_mem_foldl_insert hb s
  exact ⟨c, hc, TransCmp.eq_trans hab hbc⟩

/-! ### Sets by their members -/

/-- Sets that have the same members are equal. -/
theorem eq_of_mem_iff {s t : SortedSet α} (h : ∀ a, a ∈ s.toList ↔ a ∈ t.toList) : s = t := by
  have hpairs : ∀ p, p ∈ s.members.toList ↔ p ∈ t.members.toList := by
    rintro ⟨a, u⟩
    have ha := h a
    rw [mem_toList_iff, mem_toList_iff] at ha
    exact ⟨fun hs => (ha.1 ⟨u, hs⟩).elim fun _ ht => ht, fun ht => (ha.2 ⟨u, ht⟩).elim
      fun _ hs => hs⟩
  have hlist := Ordered.eq_of_mem_iff s.members.increasing t.members.increasing hpairs
  exact congrArg mk (SortedMap.ext hlist)

variable [LawfulEqOrd α]

theorem mem_union_iff {s t : SortedSet α} {a : α} : a ∈ (s.union t).toList ↔ a ∈ s.toList ∨
    a ∈ t.toList := by
  refine ⟨mem_union_cases, ?_⟩
  rintro (h | h)
  · exact mem_union_of_mem_left h t
  · obtain ⟨b, hb, he⟩ := exists_mem_foldl_insert h s
    rwa [LawfulEqOrd.compare_eq_iff_eq.1 he]

theorem contains_iff_mem {s : SortedSet α} {a : α} : s.contains a = true ↔ a ∈ s.toList := by
  rw [contains, SortedMap.contains, Option.isSome_iff_exists, mem_toList_iff]
  exact exists_congr fun _ => SortedMap.find?_eq_some_iff_mem

theorem subset_iff {s t : SortedSet α} : s.subset t = true ↔ ∀ a ∈ s.toList, a ∈ t.toList := by
  simp only [subset, List.all_eq_true, contains_iff_mem]

/-- A set is the set of its members. -/
theorem ofList_toList (s : SortedSet α) : ofList s.toList = s := eq_of_mem_iff fun _ =>
    mem_ofList_iff

end SortedSet

end ModuleAtlas
