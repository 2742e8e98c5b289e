import Mathlib.Order.Bounds.Basic
import ModuleAtlas.Proofs.KeyConvergence

/-!
# The order of generators

Generators of one kind are ordered by what they cover.  Every settled generator covers all the
provisional ones, and a settled generator covers another one if it has its determinants, where a
generator without a set has none to cover.  A provisional generator covers only itself.

Where two generators combine, they combine to the least one that covers both.  The laws of
combination are those of least upper bounds, so all that is left to find out is when a combination
fails: if the kinds differ, and if both sides are provisional and differ.

## Main definitions

* `Within` — sets of determinants by inclusion, the absent one below all of them.
* the order of generators, `b ≤ a` if `a` covers `b`.
* `Generator.Combined` — what the two combinations of two generators can be, one for each order.

## Main results

* `Generator.isLUB_of_combine` — a combination is the least generator that covers both sides.
* `Generator.exists_combine_iff` — when two generators combine.
* `Generator.combine_assoc` — three generators of one kind combine in both groupings alike.
* `Generator.combine_isJoin` — **combination is a join.**
-/

namespace ModuleAtlas.CacheKey

/-! ### Sets of determinants -/

/-- Whether one set of determinants is covered by another.  The absent set is below every set, and
sets are ordered by inclusion. -/
def Within : Option (SortedSet String) → Option (SortedSet String) → Prop
  | none, _ => True
  | some _, none => False
  | some s, some t => ∀ word ∈ s.toList, word ∈ t.toList

instance : (s t : Option (SortedSet String)) → Decidable (Within s t)
  | none, _ => isTrue trivial
  | some _, none => isFalse id
  | some s, some t => inferInstanceAs (Decidable (∀ word ∈ s.toList, word ∈ t.toList))

namespace Within

theorem refl : ∀ s, Within s s
  | none => trivial
  | some _ => fun _ h => h

theorem trans {s t u : Option (SortedSet String)} (hst : Within s t) (htu : Within t u) :
    Within s u := by
  cases s with
  | none => trivial
  | some s =>
    cases t with
    | none => exact hst.elim
    | some t =>
      cases u with
      | none => exact htu.elim
      | some u => exact fun word h => htu word (hst word h)

theorem antisymm {s t : Option (SortedSet String)} (hst : Within s t)
    (hts : Within t s) : s = t := by
  cases s with
  | none =>
    cases t with
    | none => rfl
    | some t => exact hts.elim
  | some s =>
    cases t with
    | none => exact hst.elim
    | some t => exact congrArg some (SortedSet.eq_of_mem_iff fun word => ⟨hst word, hts word⟩)

end Within

/-- The sets that cover a combined one are those that cover both its sides. -/
theorem Generator.join_within_iff (s t u : Option (SortedSet String)) :
    Within (join s t) u ↔ Within s u ∧ Within t u := by
  cases s with
  | none =>
    rw [join_none_left]
    exact (and_iff_right trivial).symm
  | some s =>
    cases t with
    | none =>
      rw [join_none_right]
      exact (and_iff_left trivial).symm
    | some t =>
      rw [join_some_some]
      cases u with
      | none => exact (and_self_iff).symm
      | some u => simp only [Within, SortedSet.mem_ofList_iff, List.mem_append, or_imp, forall_and]

namespace Generator

/-! ### The order -/

/-- A generator covers itself.  Others of its kind it covers only if it is settled, and then all
that are provisional and those whose determinants it has. -/
instance : LE Generator where
  le a b := a = b ∨ a.kind = b.kind ∧ b.provisional = false
    ∧ (a.provisional = true ∨ Within a.determinants b.determinants)

theorem le_def {a b : Generator} : a ≤ b ↔ a = b ∨ a.kind = b.kind ∧ b.provisional = false
    ∧ (a.provisional = true ∨ Within a.determinants b.determinants) := Iff.rfl

instance : DecidableLE Generator := fun _ _ => decidable_of_iff _ le_def.symm

theorem kind_eq_of_le {a b : Generator} (h : a ≤ b) : a.kind = b.kind := by
  obtain rfl | ⟨hk, -⟩ := le_def.1 h
  · rfl
  · exact hk

/-- Nothing but itself is below a provisional generator. -/
theorem eq_of_le_of_provisional {a b : Generator} (h : a ≤ b)
    (hb : b.provisional = true) : a = b := by
  obtain rfl | ⟨-, hb', -⟩ := le_def.1 h
  · rfl
  · exact absurd (hb'.symm.trans hb) Bool.false_ne_true

theorem le_of_provisional {a b : Generator} (hk : a.kind = b.kind) (ha : a.provisional = true)
    (hb : b.provisional = false) : a ≤ b := le_def.2 (.inr ⟨hk, hb, .inl ha⟩)

/-- Only settled generators are above a settled one, those that have its determinants. -/
theorem le_iff_of_settled {a b : Generator} (ha : a.provisional = false) :
    a ≤ b ↔ a.kind = b.kind ∧ b.provisional = false ∧ Within a.determinants b.determinants := by
  constructor
  · intro h
    obtain rfl | ⟨hk, hb, ha' | hwithin⟩ := le_def.1 h
    · exact ⟨rfl, ha, Within.refl _⟩
    · exact absurd (ha.symm.trans ha') Bool.false_ne_true
    · exact ⟨hk, hb, hwithin⟩
  · rintro ⟨hk, hb, hwithin⟩
    exact le_def.2 (.inr ⟨hk, hb, .inr hwithin⟩)

theorem settled_of_le {a b : Generator} (h : a ≤ b) (ha : a.provisional = false) :
    b.provisional = false :=
  ((le_iff_of_settled ha).1 h).2.1

protected theorem le_trans {a b c : Generator} (hab : a ≤ b) (hbc : b ≤ c) : a ≤ c := by
  cases hb : b.provisional with
  | true => exact eq_of_le_of_provisional hab hb ▸ hbc
  | false =>
    obtain ⟨hk, hc, hwithin⟩ := (le_iff_of_settled hb).1 hbc
    cases ha : a.provisional with
    | true => exact le_of_provisional ((kind_eq_of_le hab).trans hk) ha hc
    | false =>
      obtain ⟨hk', -, hwithin'⟩ := (le_iff_of_settled ha).1 hab
      exact (le_iff_of_settled ha).2 ⟨hk'.trans hk, hc, hwithin'.trans hwithin⟩

protected theorem le_antisymm {a b : Generator} (hab : a ≤ b) (hba : b ≤ a) : a = b := by
  cases hb : b.provisional with
  | true => exact eq_of_le_of_provisional hab hb
  | false =>
    obtain ⟨hk, ha, hwithin⟩ := (le_iff_of_settled hb).1 hba
    obtain ⟨-, -, hwithin'⟩ := (le_iff_of_settled ha).1 hab
    obtain ⟨kind, p, s⟩ := a
    obtain ⟨kind', q, t⟩ := b
    obtain rfl : kind' = kind := hk
    obtain rfl : p = false := ha
    obtain rfl : q = false := hb
    obtain rfl : s = t := hwithin'.antisymm hwithin
    rfl

instance : PartialOrder Generator where
  le_refl _ := le_def.2 (.inl rfl)
  le_trans _ _ _ := Generator.le_trans
  le_antisymm _ _ := Generator.le_antisymm

/-! ### Least upper bounds -/

theorem isLUB_pair_iff {a b c : Generator} : IsLUB {a, b} c ↔ ∀ u, c ≤ u ↔ a ≤ u ∧ b ≤ u := by
  simp only [isLUB_iff_le_iff, mem_upperBounds, Set.mem_insert_iff, Set.mem_singleton_iff,
    forall_eq_or_imp, forall_eq]

theorem isLUB_pair_left {a b : Generator} (h : b ≤ a) : IsLUB {a, b} a :=
  isLUB_pair_iff.2 fun _ => ⟨fun hu => ⟨hu, h.trans hu⟩, And.left⟩

theorem isLUB_pair_right {a b : Generator} (h : a ≤ b) : IsLUB {a, b} b :=
  Set.pair_comm b a ▸ isLUB_pair_left h

/-- A combination is the least generator that covers both sides. -/
theorem isLUB_of_combine {a b c : Generator} (h : a.combine b = .ok c) : IsLUB {a, b} c := by
  simp only [combine] at h
  split at h
  · next hab =>
    obtain rfl := Except.ok.inj h
    exact isLUB_pair_left hab.ge
  split at h
  · exact absurd h (by simp)
  next hk =>
  have hk : a.kind = b.kind := not_not.1 hk
  cases ha : a.provisional <;> cases hb : b.provisional <;> simp only [ha, hb] at h
  · -- both sides are settled, so that the bounds are those of the two sets
    obtain rfl := Except.ok.inj h
    refine isLUB_pair_iff.2 fun u => ?_
    rw [le_iff_of_settled ha, le_iff_of_settled hb, le_iff_of_settled rfl, join_within_iff, hk]
    tauto
  · obtain rfl := Except.ok.inj h
    exact isLUB_pair_left (le_of_provisional hk.symm hb ha)
  · obtain rfl := Except.ok.inj h
    exact isLUB_pair_right (le_of_provisional hk ha hb)
  · exact absurd h (by simp)

/-- Neither of two sets covers the other, and both are below their union. -/
example :
    let a := settled .feature (some ["a", "b"])
    let b := settled .feature (some ["a", "c"])
    let c := settled .feature (some ["a", "b", "c"])
    ¬ a ≤ b ∧ ¬ b ≤ a ∧ a ≤ c ∧ b ≤ c ∧ a.combine b = .ok c := by decide +kernel

/-! ### When generators combine -/

theorem combine_of_kind_ne {a b : Generator} (h : a.kind ≠ b.kind) :
    a.combine b = .error (.kindMismatch a.kind.text b.kind.text) := by
  rw [combine, if_neg fun hab => h (congrArg kind hab), if_pos h]

theorem combine_of_provisional {a b : Generator} (hne : a ≠ b) (hk : a.kind = b.kind)
    (ha : a.provisional = true) (hb : b.provisional = true) :
    a.combine b = .error (.provisionalConflict a.kind.text) := by
  rw [combine, if_neg hne, if_neg (not_not.2 hk), ha, hb]

/-- Generators of one kind that are equal if both are provisional. -/
def Combinable (a b : Generator) : Prop :=
  a.kind = b.kind ∧ (a.provisional = true → b.provisional = true → a = b)

theorem Combinable.symm {a b : Generator} (h : Combinable a b) : Combinable b a :=
  ⟨h.1.symm, fun hb ha => (h.2 ha hb).symm⟩

theorem combinable_of_le {a b : Generator} (h : a ≤ b) : Combinable a b :=
  ⟨kind_eq_of_le h, fun _ hb => eq_of_le_of_provisional h hb⟩

theorem exists_combine_iff {a b : Generator} : (∃ c, a.combine b = .ok c) ↔ Combinable a b := by
  constructor
  · rintro ⟨c, hc⟩
    constructor
    · by_contra hk
      simp [combine_of_kind_ne hk] at hc
    · intro ha hb
      by_contra hne
      by_cases hk : a.kind = b.kind
      · simp [combine_of_provisional hne hk ha hb] at hc
      · simp [combine_of_kind_ne hk] at hc
  · rintro ⟨hk, hp⟩
    obtain ⟨c, hc, -⟩ := combine_eq_ok hk hp
    exact ⟨c, hc⟩

/-- A combination is known by its being the least generator that covers both sides. -/
theorem combine_eq_ok_iff {a b c : Generator} : a.combine b = .ok c ↔ Combinable a b ∧
    IsLUB {a, b} c := by
  constructor
  · exact fun h => ⟨exists_combine_iff.1 ⟨c, h⟩, isLUB_of_combine h⟩
  · rintro ⟨hab, hleast⟩
    obtain ⟨d, hd⟩ := exists_combine_iff.2 hab
    rw [hd, (isLUB_of_combine hd).unique hleast]

theorem combine_comm_of_eq_ok {a b c : Generator} (h : a.combine b = .ok c) :
    b.combine a = .ok c := by
  obtain ⟨hab, hleast⟩ := combine_eq_ok_iff.1 h
  exact combine_eq_ok_iff.2 ⟨hab.symm, Set.pair_comm a b ▸ hleast⟩

/-- A generator that covers the other side comes out as it is. -/
theorem combine_of_le {a b : Generator} (h : b ≤ a) : a.combine b = .ok a :=
  combine_eq_ok_iff.2 ⟨(combinable_of_le h).symm, isLUB_pair_left h⟩

/-- What the combinations of two generators can be, in the one order and in the other. -/
inductive Combined (a b : Generator) : Except Error Generator → Except Error Generator → Prop
  /-- Both find the least generator that covers the two. -/
  | joined {c : Generator} (least : IsLUB {a, b} c) : Combined a b (.ok c) (.ok c)
  /-- Both refuse two provisional generators that differ. -/
  | conflict (kinds : a.kind = b.kind) (left : a.provisional = true) (right : b.provisional = true)
      (ne : a ≠ b) :
    Combined a b (.error (.provisionalConflict a.kind.text))
      (.error (.provisionalConflict a.kind.text))
  /-- Both refuse two kinds, each naming its own left side first. -/
  | mismatch (kinds : a.kind ≠ b.kind) :
    Combined a b (.error (.kindMismatch a.kind.text b.kind.text))
      (.error (.kindMismatch b.kind.text a.kind.text))

theorem combined (a b : Generator) : Combined a b (a.combine b) (b.combine a) := by
  by_cases hk : a.kind = b.kind
  · by_cases hab : Combinable a b
    · obtain ⟨c, hc⟩ := exists_combine_iff.2 hab
      rw [hc, combine_comm_of_eq_ok hc]
      exact .joined (isLUB_of_combine hc)
    · obtain ⟨ha, hb, hne⟩ : a.provisional = true ∧ b.provisional = true ∧ a ≠ b := by
        simpa [Combinable, hk] using hab
      rw [combine_of_provisional hne hk ha hb, combine_of_provisional hne.symm hk.symm hb ha, ← hk]
      exact .conflict hk ha hb hne
  · rw [combine_of_kind_ne hk, combine_of_kind_ne (Ne.symm hk)]
    exact .mismatch hk

/-! ### Three generators -/

/-- A combination of two generators combines with a third one if both of them do. -/
theorem Combinable.of_combine {a b c d : Generator} (h : a.combine b = .ok d)
    (hac : Combinable a c) : Combinable d c := by
  obtain ⟨hle, -⟩ := (isLUB_pair_iff.1 (isLUB_of_combine h) d).1 le_rfl
  -- a combination is provisional only if it is the one side, which is the other one as well
  refine ⟨(kind_eq_of_le hle).symm.trans hac.1, fun hd hc => ?_⟩
  obtain rfl := eq_of_le_of_provisional hle hd
  exact hac.2 hd hc

/-- Three generators of which any two combine have one combination, whichever two of them come
first. -/
theorem combine_assoc {a b c : Generator} (hab : Combinable a b) (hbc : Combinable b c)
    (hac : Combinable a c) :
    ∃ d, (a.combine b >>= fun ab => ab.combine c) = .ok d ∧
      (b.combine c >>= fun bc => a.combine bc) = .ok d := by
  obtain ⟨ab, h₁⟩ := exists_combine_iff.2 hab
  obtain ⟨bc, h₂⟩ := exists_combine_iff.2 hbc
  obtain ⟨d, h₃⟩ := exists_combine_iff.2 (hac.of_combine h₁)
  have hleast := isLUB_pair_iff.1 (isLUB_of_combine h₃)
  have hgrouped : IsLUB {a, bc} d := isLUB_pair_iff.2 fun u => by
    rw [hleast u, isLUB_pair_iff.1 (isLUB_of_combine h₁) u,
      isLUB_pair_iff.1 (isLUB_of_combine h₂) u, and_assoc]
  have h₄ : a.combine bc = .ok d := combine_eq_ok_iff.2 ⟨(hab.symm.of_combine h₂).symm, hgrouped⟩
  refine ⟨d, ?_, ?_⟩
  · rw [h₁]
    exact h₃
  · rw [h₂]
    exact h₄

/-- **Combination is a join.**  Two generators give the same in both orders, the least generator
that covers both or one of the two refusals.  Three of one kind whose provisional members are equal
give the same in both groupings.  For settled generators of one kind the order is that of their
sets, and there is always a combination.  A generator that covers the other one is the combination
itself. -/
theorem combine_isJoin :
    (∀ a b : Generator, Combined a b (a.combine b) (b.combine a))
      ∧ (∀ a b c : Generator, a.kind = b.kind → b.kind = c.kind → Consistent [a, b, c] →
          ∃ d, (do (← a.combine b).combine c) = .ok d ∧ (do a.combine (← b.combine c)) = .ok d)
      ∧ (∀ a b : Generator, a.kind = b.kind → a.provisional = false → b.provisional = false →
          (a ≤ b ↔ Within a.determinants b.determinants)
            ∧ ∃ c, c.kind = a.kind ∧ c.provisional = false ∧ IsLUB {a, b} c
              ∧ a.combine b = .ok c ∧ b.combine a = .ok c)
      ∧ (∀ a : Generator, a.combine a = .ok a)
      ∧ ∀ a b : Generator, b ≤ a → a.combine b = .ok a ∧ b.combine a = .ok a := by
  refine ⟨combined, ?_, ?_, combine_self, fun a b h =>
    ⟨combine_of_le h, combine_comm_of_eq_ok (combine_of_le h)⟩⟩
  · intro a b c hab hbc h
    have hcombinable : ∀ g ∈ [a, b, c], ∀ g' ∈ [a, b, c], g.kind = g'.kind → Combinable g g' :=
      fun g hg g' hg' hk => ⟨hk, fun hp hp' => h g hg g' hg' hp hp' hk⟩
    exact combine_assoc (hcombinable a (by simp) b (by simp) hab)
      (hcombinable b (by simp) c (by simp) hbc)
      (hcombinable a (by simp) c (by simp) (hab.trans hbc))
  · intro a b hk ha hb
    refine ⟨(le_iff_of_settled ha).trans (by simp [hk, hb]), ?_⟩
    obtain ⟨c, hc⟩ :=
      exists_combine_iff.2 (⟨hk, fun hp => absurd (ha.symm.trans hp) Bool.false_ne_true⟩ :
        Combinable a b)
    have hleast := isLUB_of_combine hc
    obtain ⟨hac, -⟩ := (isLUB_pair_iff.1 hleast c).1 le_rfl
    exact ⟨c, (kind_eq_of_le hac).symm, settled_of_le hac ha, hleast, hc, combine_comm_of_eq_ok hc⟩

end Generator

end ModuleAtlas.CacheKey
