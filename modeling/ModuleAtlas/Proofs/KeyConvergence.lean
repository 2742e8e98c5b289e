import ModuleAtlas.CacheKey.KeySet
import ModuleAtlas.Proofs.MapLaws

/-!
# Convergence of key sets

What a key set holds in the end depends on the generators that went into it and on nothing else: not
on their order, not on how often each of them occurs, and not on the sets that were built on the
way.

A collection of generators demands one generator of each of its kinds.  The demand of two
collections together is found from the two demands by `cover`, which never fails, and
`Generator.combine` agrees with it wherever no two different provisional generators meet.

## Main definitions

* `demand` — the generator that a collection demands of a kind.
* `Consistent` — the collections whose provisional generators of one kind are equal.
* `Assembly` — the ways to put a key set together from generators.

## Main results

* `demand_append` — the demand of two collections together.
* `KeySet.add_meets`, `KeySet.merge_meets` — sets that meet a demand meet it again after a step.
* `Assembly.build_meets` — no step of an assembly fails, and its set meets the demand of its
  generators.
* `Assembly.build_eq_of_mem_iff` — **assemblies of the same generators give the same key set.**
-/

namespace ModuleAtlas.CacheKey

/-! ### Unions -/

/-- The union of some sets, or `none` if there are none. -/
def unionOf (sets : List (SortedSet String)) : Option (SortedSet String) :=
  if sets = [] then none else some (.ofList (sets.flatMap SortedSet.toList))

@[simp] theorem unionOf_nil : unionOf [] = none := rfl

theorem unionOf_of_ne_nil {sets : List (SortedSet String)} (h : sets ≠ []) :
    unionOf sets = some (.ofList (sets.flatMap SortedSet.toList)) := if_neg h

@[simp] theorem unionOf_singleton (set : SortedSet String) : unionOf [set] = some set := by
  rw [unionOf_of_ne_nil (List.cons_ne_nil _ _), List.flatMap_singleton, SortedSet.ofList_toList]

/-- A union does not depend on the order of the sets. -/
theorem unionOf_congr {l m : List (SortedSet String)} (h : ∀ set, set ∈ l ↔ set ∈ m) :
    unionOf l = unionOf m := by
  have hnil : l = [] ↔ m = [] := by simp only [List.eq_nil_iff_forall_not_mem, h]
  by_cases hl : l = []
  · rw [hl, hnil.1 hl]
  · rw [unionOf_of_ne_nil hl, unionOf_of_ne_nil (mt hnil.2 hl)]
    congr 1
    apply SortedSet.eq_of_mem_iff
    simp only [SortedSet.mem_ofList_iff, List.mem_flatMap, h, implies_true]

/-- Where one of two sets covers the other, it is their union. -/
theorem Generator.join_some_some (s t : SortedSet String) :
    Generator.join (some s) (some t) = some (.ofList (s.toList ++ t.toList)) := by
  have hunion : s.union t = .ofList (s.toList ++ t.toList) := by
    apply SortedSet.eq_of_mem_iff
    simp [SortedSet.mem_union_iff, SortedSet.mem_ofList_iff]
  simp only [Generator.join]
  split
  · next hsub =>
    congr 1
    apply SortedSet.eq_of_mem_iff
    have hsub := SortedSet.subset_iff.1 hsub
    grind [SortedSet.mem_ofList_iff]
  · split
    · next hsub =>
      congr 1
      apply SortedSet.eq_of_mem_iff
      have hsub := SortedSet.subset_iff.1 hsub
      grind [SortedSet.mem_ofList_iff]
    · rw [hunion]

theorem unionOf_append (l m : List (SortedSet String)) :
    unionOf (l ++ m) = Generator.join (unionOf l) (unionOf m) := by
  by_cases hl : l = []
  · rw [hl, List.nil_append, unionOf_nil, Generator.join_none_left]
  by_cases hm : m = []
  · rw [hm, List.append_nil, unionOf_nil, Generator.join_none_right]
  have hne : l ++ m ≠ [] := fun h => hl (List.append_eq_nil_iff.1 h).1
  rw [unionOf_of_ne_nil hl, unionOf_of_ne_nil hm, unionOf_of_ne_nil hne, Generator.join_some_some]
  congr 1
  apply SortedSet.eq_of_mem_iff
  simp only [SortedSet.mem_ofList_iff, List.mem_flatMap, List.mem_append, or_and_right,
    exists_or, implies_true]

@[simp] theorem join_self (s : Option (SortedSet String)) : Generator.join s s = s := by
  cases s with
  | none => rfl
  | some s =>
    have hsub : s.subset s = true := SortedSet.subset_iff.2 fun _ h => h
    simp only [Generator.join, hsub, if_true]

/-! ### Demands -/

/-- The settled generators of a kind. -/
def settledOf (l : List Generator) (k : Kind) : List Generator :=
  l.filter fun g => g.kind = k ∧ g.provisional = false

/-- The generator that a collection demands of a kind: the settled one over the union of all sets
that the settled ones have, or without constraint if they have none, and a provisional one only
where nothing of the kind is settled. -/
def demand (l : List Generator) (k : Kind) : Option Generator :=
  if settledOf l k = [] then l.find? fun g => g.kind = k
  else
    some { kind := k, determinants := unionOf ((settledOf l k).filterMap Generator.determinants) }

theorem mem_settledOf {l : List Generator} {k : Kind} {g : Generator} :
    g ∈ settledOf l k ↔ g ∈ l ∧ g.kind = k ∧ g.provisional = false := by
  simp only [settledOf, List.mem_filter, decide_eq_true_eq]

theorem settledOf_append (l m : List Generator) (k : Kind) :
    settledOf (l ++ m) k = settledOf l k ++ settledOf m k := List.filter_append l m

theorem demand_of_settledOf_eq_nil {l : List Generator} {k : Kind} (h : settledOf l k = []) :
    demand l k = l.find? fun g => g.kind = k := if_pos h

theorem demand_of_settledOf_ne_nil {l : List Generator} {k : Kind} (h : settledOf l k ≠ []) :
    demand l k = some
      { kind := k, determinants := unionOf ((settledOf l k).filterMap Generator.determinants) } :=
  if_neg h

/-- Where nothing of a kind is settled, every generator of the kind is provisional. -/
theorem provisional_of_settledOf_eq_nil {l : List Generator} {k : Kind} (h : settledOf l k = [])
    {g : Generator} (hg : g ∈ l) (hk : g.kind = k) : g.provisional = true := by
  cases hp : g.provisional with
  | true => rfl
  | false =>
    have hmem : g ∈ settledOf l k := mem_settledOf.2 ⟨hg, hk, hp⟩
    rw [h] at hmem
    exact absurd hmem List.not_mem_nil

/-- What a collection finds of a kind is one of its generators of that kind. -/
theorem mem_of_find?_kind {l : List Generator} {k : Kind} {g : Generator}
    (h : (l.find? fun g => g.kind = k) = some g) : g ∈ l ∧ g.kind = k := by
  exact ⟨List.mem_of_find?_eq_some h, by simpa using List.find?_some h⟩

theorem kind_of_demand {l : List Generator} {k : Kind} {g : Generator} (h : demand l k = some g) :
    g.kind = k := by
  by_cases hs : settledOf l k = []
  · rw [demand_of_settledOf_eq_nil hs] at h
    exact (mem_of_find?_kind h).2
  · rw [demand_of_settledOf_ne_nil hs] at h
    rw [← Option.some.inj h]

/-- A provisional generator is demanded only if it is there. -/
theorem mem_of_demand {l : List Generator} {k : Kind} {g : Generator} (h : demand l k = some g)
    (hp : g.provisional = true) : g ∈ l := by
  by_cases hs : settledOf l k = []
  · rw [demand_of_settledOf_eq_nil hs] at h
    exact (mem_of_find?_kind h).1
  · rw [demand_of_settledOf_ne_nil hs] at h
    rw [← Option.some.inj h] at hp
    exact absurd hp Bool.false_ne_true

theorem demand_singleton (g : Generator) (k : Kind) :
    demand [g] k = if g.kind = k then some g else none := by
  obtain ⟨kind, provisional, determinants⟩ := g
  by_cases hk : kind = k
  · subst hk
    cases provisional with
    | true => simp [demand, settledOf]
    | false => cases determinants <;> simp [demand, settledOf]
  · simp [demand, settledOf, hk]

/-- The generator that covers two demands, of which the first wins where both are provisional. -/
def cover : Option Generator → Option Generator → Option Generator
  | none, b => b
  | a, none => a
  | some a, some b =>
    match a.provisional, b.provisional with
    | _, true => some a
    | true, false => some b
    | false, false => some { a with determinants := Generator.join a.determinants b.determinants }

@[simp] theorem cover_none_left (b : Option Generator) : cover none b = b := by cases b <;> rfl

@[simp] theorem cover_none_right (a : Option Generator) : cover a none = a := by cases a <;> rfl

/-- The demand of two collections together. -/
theorem demand_append (l m : List Generator) (k : Kind) :
    demand (l ++ m) k = cover (demand l k) (demand m k) := by
  have hfind : ∀ {l : List Generator} {g : Generator}, settledOf l k = [] →
      l.find? (fun g => g.kind = k) = some g → g.provisional = true := by
    intro l g hl hg
    obtain ⟨hmem, hk⟩ := mem_of_find?_kind hg
    exact provisional_of_settledOf_eq_nil hl hmem hk
  -- a side on which nothing is settled demands its first generator, which is provisional
  by_cases hl : settledOf l k = [] <;> by_cases hm : settledOf m k = []
  · have h : settledOf (l ++ m) k = [] := by rw [settledOf_append, hl, hm, List.nil_append]
    rw [demand_of_settledOf_eq_nil hl, demand_of_settledOf_eq_nil hm, demand_of_settledOf_eq_nil h,
      List.find?_append]
    cases ha : l.find? (fun g => g.kind = k) with
    | none => rw [Option.none_or, cover_none_left]
    | some a =>
      cases hb : m.find? (fun g => g.kind = k) with
      | none => rw [Option.or_none, cover_none_right]
      | some b => simp only [Option.some_or, cover, hfind hl ha, hfind hm hb]
  · have h : settledOf (l ++ m) k = settledOf m k := by rw [settledOf_append, hl, List.nil_append]
    have hdemand : demand (l ++ m) k = demand m k := by
      rw [demand_of_settledOf_ne_nil (h ▸ hm), demand_of_settledOf_ne_nil hm, h]
    rw [hdemand, demand_of_settledOf_eq_nil hl, demand_of_settledOf_ne_nil hm]
    cases ha : l.find? (fun g => g.kind = k) with
    | none => rw [cover_none_left]
    | some a => simp only [cover, hfind hl ha]
  · have h : settledOf (l ++ m) k = settledOf l k := by rw [settledOf_append, hm, List.append_nil]
    have hdemand : demand (l ++ m) k = demand l k := by
      rw [demand_of_settledOf_ne_nil (h ▸ hl), demand_of_settledOf_ne_nil hl, h]
    rw [hdemand, demand_of_settledOf_eq_nil hm, demand_of_settledOf_ne_nil hl]
    cases hb : m.find? (fun g => g.kind = k) with
    | none => rw [cover_none_right]
    | some b => simp only [cover, hfind hm hb]
  · have h : settledOf (l ++ m) k ≠ [] := by
      rw [settledOf_append]
      exact fun h => hl (List.append_eq_nil_iff.1 h).1
    rw [demand_of_settledOf_ne_nil hl, demand_of_settledOf_ne_nil hm, demand_of_settledOf_ne_nil h,
      settledOf_append, List.filterMap_append, unionOf_append]
    rfl

/-! ### Consistent collections -/

/-- Provisional generators of one kind are equal. -/
def Consistent (l : List Generator) : Prop :=
  ∀ g ∈ l, ∀ h ∈ l, g.provisional = true → h.provisional = true → g.kind = h.kind → g = h

instance (l : List Generator) : Decidable (Consistent l) :=
  inferInstanceAs (Decidable (∀ g ∈ l, ∀ h ∈ l, _))

theorem Consistent.of_subset {l m : List Generator} (h : Consistent m)
    (hlm : ∀ g ∈ l, g.provisional = true → g ∈ m) : Consistent l := by
  intro g hg g' hg' hp hp' hk
  exact h g (hlm g hg hp) g' (hlm g' hg' hp') hp hp' hk

/-- What a consistent collection demands depends only on which generators it has. -/
theorem demand_congr {l m : List Generator} (hl : Consistent l)
    (h : ∀ g, g ∈ l ↔ g ∈ m) (k : Kind) : demand l k = demand m k := by
  have hsettled : ∀ g, g ∈ settledOf l k ↔ g ∈ settledOf m k :=
    fun g => by rw [mem_settledOf, mem_settledOf, h]
  have hnil : settledOf l k = [] ↔ settledOf m k = [] := by
    simp only [List.eq_nil_iff_forall_not_mem, hsettled]
  by_cases hs : settledOf l k = []
  · rw [demand_of_settledOf_eq_nil hs, demand_of_settledOf_eq_nil (hnil.1 hs)]
    cases ha : l.find? (fun g => g.kind = k) with
    | none =>
      rw [List.find?_eq_none] at ha
      exact (List.find?_eq_none.2 fun g hg => ha g ((h g).2 hg)).symm
    | some a =>
      obtain ⟨hamem, hak⟩ := mem_of_find?_kind ha
      obtain ⟨b, hb⟩ := Option.isSome_iff_exists.1
        (List.find?_isSome.2 ⟨a, (h a).1 hamem, decide_eq_true hak⟩ :
          (m.find? fun g => g.kind = k).isSome)
      obtain ⟨hbmem, hbk⟩ := mem_of_find?_kind hb
      have hap := provisional_of_settledOf_eq_nil hs hamem hak
      have hbp := provisional_of_settledOf_eq_nil hs ((h b).2 hbmem) hbk
      rw [hb, hl a hamem b ((h b).2 hbmem) hap hbp (hak.trans hbk.symm)]
  · rw [demand_of_settledOf_ne_nil hs, demand_of_settledOf_ne_nil (mt hnil.2 hs)]
    congr 2
    exact unionOf_congr fun set => by simp only [List.mem_filterMap, hsettled]

/-- Combining generators of one kind finds what covers both, unless they are provisional and
differ. -/
theorem Generator.combine_eq_ok {a b : Generator} (hk : a.kind = b.kind)
    (hp : a.provisional = true → b.provisional = true → a = b) :
    ∃ c, a.combine b = .ok c ∧ cover (some a) (some b) = some c := by
  obtain ⟨kind, p, s⟩ := a
  obtain ⟨kind', q, t⟩ := b
  obtain rfl : kind = kind' := hk
  cases p <;> cases q
  · refine ⟨⟨kind, false, join s t⟩, ?_, rfl⟩
    by_cases hst : s = t
    · rw [hst, combine_self, join_self]
    · simp [combine, hst]
  · exact ⟨⟨kind, false, s⟩, by simp [combine], rfl⟩
  · exact ⟨⟨kind, false, t⟩, by simp [combine], rfl⟩
  · obtain rfl : s = t := congrArg determinants (hp rfl rfl)
    exact ⟨⟨kind, true, s⟩, combine_self _, rfl⟩

/-! ### Key sets -/

namespace KeySet

/-- The member of every kind is the one that a collection demands. -/
def Meets (s : KeySet) (l : List Generator) : Prop := ∀ k, s.get? k = demand l k

theorem meets_empty : (∅ : KeySet).Meets [] := fun _ => rfl

/-- A set is known by what it holds of each kind. -/
theorem eq_of_get?_eq {s t : KeySet} (h : ∀ k, s.get? k = t.get? k) : s = t := by
  obtain ⟨s⟩ := s
  obtain ⟨t⟩ := t
  exact congrArg mk (SortedMap.eq_of_find?_eq h)

/-- Adding a generator of a consistent collection succeeds and extends the demand by that
generator. -/
theorem add_meets {s : KeySet} {l : List Generator} {g : Generator} (hs : s.Meets l)
    (hl : Consistent (l ++ [g])) : ∃ s', s.add g = .ok s' ∧ s'.Meets (l ++ [g]) := by
  have hinsert : ∀ c, cover (demand l g.kind) (some g) = some c →
      (⟨s.generators.insert g.kind c⟩ : KeySet).Meets (l ++ [g]) := by
    intro c hc k
    rw [get?, SortedMap.find?_insert, demand_append, demand_singleton]
    simp only [Std.LawfulEqOrd.compare_eq_iff_eq]
    by_cases hk : k = g.kind
    · rw [if_pos hk, if_pos hk.symm, hk, hc]
    · rw [if_neg hk, if_neg fun h => hk h.symm, cover_none_right]
      exact hs k
  cases hh : s.get? g.kind with
  | none => exact ⟨_, add_of_get?_eq_none hh, hinsert g (by rw [← hs, hh, cover_none_left])⟩
  | some h =>
    have hdemand : demand l g.kind = some h := (hs g.kind).symm.trans hh
    obtain ⟨c, hcombine, hcover⟩ := Generator.combine_eq_ok (kind_of_demand hdemand) fun hp hg =>
      hl h (List.mem_append_left _ (mem_of_demand hdemand hp)) g (by simp) hp hg
        (kind_of_demand hdemand)
    exact ⟨_, by simp only [add, hh, hcombine], hinsert c (hdemand ▸ hcover)⟩

/-- The members of a set demand what the set holds. -/
theorem demand_toList {t : KeySet} {m : List Generator} (ht : t.Meets m) (k : Kind) :
    demand t.toList k = t.get? k := by
  have hkind : ∀ p ∈ t.generators.toList, p.2.kind = p.1 := by
    intro p hp
    have hget : t.get? p.1 = some p.2 := SortedMap.find?_eq_some_iff_mem.2 hp
    exact kind_of_demand ((ht p.1).symm.trans hget)
  have hinc := t.generators.increasing
  simp only [toList, SortedMap.values, get?, SortedMap.find?]
  generalize t.generators.toList = l at hkind hinc
  induction l with
  | nil => rfl
  | cons p l ih =>
    obtain ⟨j, g⟩ := p
    obtain ⟨hj, hl⟩ := List.pairwise_cons.1 hinc
    have ih := ih (fun q hq => hkind q (List.mem_cons_of_mem _ hq)) hl
    have hg : g.kind = j := hkind (j, g) List.mem_cons_self
    rw [List.map_cons, ← List.singleton_append, demand_append, demand_singleton, hg, ih]
    simp only [Ordered.lookup]
    cases hc : compare k j with
    | lt =>
      have hne : j ≠ k := fun h => absurd (h ▸ hc) (by simp)
      have hlt : ∀ q ∈ l, compare k q.1 = .lt := fun q hq => Std.TransCmp.lt_trans hc (hj q hq)
      rw [if_neg hne, Ordered.lookup_eq_none_of_lt hlt]
      rfl
    | eq =>
      have hk : k = j := Std.LawfulEqOrd.compare_eq_iff_eq.1 hc
      have hlt : ∀ q ∈ l, compare k q.1 = .lt := fun q hq => hk ▸ hj q hq
      rw [if_pos hk.symm, Ordered.lookup_eq_none_of_lt hlt, cover_none_right]
    | gt =>
      have hne : j ≠ k := fun h => absurd (h ▸ hc) (by simp)
      rw [if_neg hne, cover_none_left]

/-- Adding the generators of a list one by one extends the demand by all of them. -/
theorem addAll_meets {s : KeySet} {l : List Generator} (hs : s.Meets l) (m : List Generator)
    (hl : Consistent (l ++ m)) : ∃ s', s.addAll m = .ok s' ∧ s'.Meets (l ++ m) := by
  induction m generalizing s l with
  | nil => exact ⟨s, rfl, by rwa [List.append_nil]⟩
  | cons g m ih =>
    rw [List.append_cons] at hl
    have hfirst : Consistent (l ++ [g]) := hl.of_subset fun _ hg _ => List.mem_append_left m hg
    obtain ⟨s₁, hadd, hs₁⟩ := add_meets hs hfirst
    obtain ⟨s', hall, hs'⟩ := ih hs₁ hl
    refine ⟨s', ?_, by rwa [List.append_cons]⟩
    rw [addAll, List.foldlM_cons, hadd]
    exact hall

/-- Merging sets that meet the demands of two collections succeeds and meets the demand of both
together. -/
theorem merge_meets {s t : KeySet} {l m : List Generator} (hs : s.Meets l) (ht : t.Meets m)
    (hlm : Consistent (l ++ m)) : ∃ s', s.merge t = .ok s' ∧ s'.Meets (l ++ m) := by
  have hprovisional : ∀ g ∈ t.toList, g.provisional = true → g ∈ m := by
    intro g hg hp
    obtain ⟨⟨k, _⟩, hmem, rfl⟩ := List.mem_map.1 hg
    have hget : t.get? k = some _ := SortedMap.find?_eq_some_iff_mem.2 hmem
    exact mem_of_demand ((ht k).symm.trans hget) hp
  have hmembers : Consistent (l ++ t.toList) := by
    refine hlm.of_subset fun g hg hp => List.mem_append.2 ?_
    exact (List.mem_append.1 hg).imp_right fun hg => hprovisional g hg hp
  obtain ⟨s', hmerge, hs'⟩ := addAll_meets hs t.toList hmembers
  refine ⟨s', hmerge, fun k => ?_⟩
  calc s'.get? k = demand (l ++ t.toList) k := hs' k
    _ = cover (demand l k) (demand t.toList k) := demand_append l t.toList k
    _ = cover (demand l k) (demand m k) := by rw [demand_toList ht, ht k]
    _ = demand (l ++ m) k := (demand_append l m k).symm

end KeySet

/-! ### Assemblies -/

/-- The ways to put a key set together from generators. -/
inductive Assembly where
  /-- The empty set. -/
  | empty
  /-- A generator is added to a set. -/
  | add (a : Assembly) (g : Generator)
  /-- A set is merged into another one. -/
  | merge (a b : Assembly)
  deriving DecidableEq

namespace Assembly

/-- The generators that go in, each as often as it does. -/
def generators : Assembly → List Generator
  | empty => []
  | add a g => a.generators ++ [g]
  | merge a b => a.generators ++ b.generators

/-- The set that comes out, if no step on the way fails. -/
def build : Assembly → Except Error KeySet
  | empty => .ok ∅
  | add a g => do (← a.build).add g
  | merge a b => do (← a.build).merge (← b.build)

/-- The generators of a list, added one by one. -/
def oneByOne (l : List Generator) : Assembly := l.foldl add empty

theorem build_foldl_add (l : List Generator) (a : Assembly) :
    (l.foldl add a).build = a.build >>= fun s => s.addAll l := by
  induction l generalizing a with
  | nil => exact (bind_pure a.build).symm
  | cons g l ih =>
    rw [List.foldl_cons, ih, build, bind_assoc]
    rfl

/-- Adding one by one is adding the list. -/
theorem build_oneByOne (l : List Generator) : (oneByOne l).build = KeySet.addAll ∅ l :=
  build_foldl_add l empty

theorem generators_foldl_add (l : List Generator) (a : Assembly) :
    (l.foldl add a).generators = a.generators ++ l := by
  induction l generalizing a with
  | nil => exact (List.append_nil _).symm
  | cons g l ih => rw [List.foldl_cons, ih, generators, ← List.append_cons]

@[simp] theorem generators_oneByOne (l : List Generator) : (oneByOne l).generators = l :=
  generators_foldl_add l empty

/-- No step of an assembly fails, and its set meets the demand of its generators. -/
theorem build_meets {a : Assembly} (h : Consistent a.generators) :
    ∃ s, a.build = .ok s ∧ s.Meets a.generators := by
  induction a with
  | empty => exact ⟨∅, rfl, KeySet.meets_empty⟩
  | add a g ih =>
    obtain ⟨s, hs, hmeets⟩ := ih (h.of_subset fun _ hg _ => List.mem_append_left _ hg)
    obtain ⟨s', hadd, hs'⟩ := KeySet.add_meets hmeets h
    refine ⟨s', ?_, hs'⟩
    rw [build, hs]
    exact hadd
  | merge a b iha ihb =>
    obtain ⟨s, hs, hmeets⟩ := iha (h.of_subset fun _ hg _ => List.mem_append_left _ hg)
    obtain ⟨t, ht, hmeets'⟩ := ihb (h.of_subset fun _ hg _ => List.mem_append_right _ hg)
    obtain ⟨s', hmerge, hs'⟩ := KeySet.merge_meets hmeets hmeets' h
    refine ⟨s', ?_, hs'⟩
    rw [build, hs, ht]
    exact hmerge

/-- Two assemblies of the same generators, in whatever order, grouping and number, both succeed with
the set whose member of every kind is the one demanded, provided that provisional generators of one
kind are equal. -/
theorem build_eq_of_mem_iff {a b : Assembly} (ha : Consistent a.generators)
    (hab : ∀ g, g ∈ a.generators ↔ g ∈ b.generators) :
    ∃ s, a.build = .ok s ∧ b.build = .ok s ∧ ∀ k, s.get? k = demand a.generators k := by
  obtain ⟨s, hs, hmeets⟩ := build_meets ha
  obtain ⟨t, ht, hmeets'⟩ := build_meets (a := b) (ha.of_subset fun g hg _ => (hab g).2 hg)
  have hst : s = t := by
    apply KeySet.eq_of_get?_eq
    intro k
    rw [hmeets k, hmeets' k, demand_congr ha hab]
  exact ⟨s, hs, hst ▸ ht, hmeets⟩

/-- Five generators, of which two are provisional and one has no set, and the same in another order
and in two groups. -/
theorem build_eq_of_regrouped :
    let a := Generator.tentative .feature (some ["draft"])
    let b := Generator.settled .feature (some ["x"])
    let c := Generator.settled .feature (some ["y"])
    let d := Generator.unconstrained .locale
    let e := Generator.tentative .locale none
    let first := oneByOne [a, b, c, d, e]
    let second := merge (oneByOne [e, c]) (merge (oneByOne [d, a]) (oneByOne [b]))
    Consistent first.generators ∧ (∀ g, g ∈ first.generators ↔ g ∈ second.generators)
      ∧ ∃ s, first.build = .ok s ∧ second.build = .ok s ∧
        ∀ k, s.get? k = demand first.generators k := by
  intro a b c d e first second
  have hconsistent : Consistent first.generators := by decide
  have hsame : ∀ g, g ∈ first.generators ↔ g ∈ second.generators := by
    intro g
    simp only [first, second, generators, generators_oneByOne, List.mem_append, List.mem_cons,
      List.not_mem_nil, or_false]
    grind only
  exact ⟨hconsistent, hsame, build_eq_of_mem_iff hconsistent hsame⟩

end Assembly

end ModuleAtlas.CacheKey
