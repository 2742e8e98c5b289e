import Mathlib.Data.List.Find
import Mathlib.Order.Basic
import ModuleAtlas.Proofs.GeneratorOrder

/-!
# Runs of key sets

A build keeps key sets and adds generators to them, one at a time or by merging other sets, and goes
on after a refusal.  Both operations change a set in place.  An addition looks before it writes.  A
merge could stop half-way, so it works on a copy, which takes the place of the set only at the end.

What a call does to a set follows from the generators that it adds: the first of them that is
provisional and meets a different provisional member stops it, and where there is none the set grows
in the order of generators.  A settled member has only settled ones above it, so the growth of a
whole run keeps it settled.

## Main definitions

* `KeySet.Sound` — every member is stored under its own kind.
* `KeySet.conflicts` — a generator and the member of its kind are provisional and differ.
* the order of key sets, `s ≤ t` if for every member of `s` there is one of `t` that covers it.
* `KeySet.addInPlace`, `KeySet.stage`, `KeySet.mergeInPlace` — the operations as changes of a set.
* `Call`, `perform`, `run` — calls on named sets, failing ones included.

## Main results

* `KeySet.extended_addAll` — what adding the generators of a list comes to.
* `KeySet.addInPlace_eq`, `KeySet.mergeInPlace_eq` — a refusal leaves the set as it was.
* `performed` — what one call does to sound sets.
* `run_invariants` — **all sets of a run are sound, refused calls change nothing, and what is
  settled stays so.**
-/

namespace ModuleAtlas.CacheKey

namespace KeySet

variable {s t : KeySet} {g c : Generator} {k : Kind} {l : List Generator}

/-! ### Sound sets and their order -/

/-- Every member is stored under its own kind. -/
def Sound (s : KeySet) : Prop := ∀ k, ∀ g ∈ s.get? k, g.kind = k

theorem sound_empty : (∅ : KeySet).Sound := by
  intro k g hg
  simp at hg

theorem get?_insert (s : KeySet) (k j : Kind) (c : Generator) :
    (⟨s.generators.insert k c⟩ : KeySet).get? j = if j = k then some c else s.get? j := by
  simp only [get?, SortedMap.find?_insert, Std.LawfulEqOrd.compare_eq_iff_eq]

/-- The kinds of the members of a sound set are different. -/
theorem Sound.pairwise_toList (hs : s.Sound) : s.toList.Pairwise fun g h => g.kind ≠ h.kind := by
  rw [toList, SortedMap.values, List.pairwise_map]
  refine s.generators.increasing.imp_of_mem fun {p q} hp hq hlt heq => ?_
  rw [hs p.1 p.2 (SortedMap.find?_eq_some_iff_mem.2 hp),
    hs q.1 q.2 (SortedMap.find?_eq_some_iff_mem.2 hq)] at heq
  simp [heq] at hlt

/-- A set is above another one if its members cover those of the other. -/
instance : Preorder KeySet where
  le s t := ∀ k, ∀ g ∈ s.get? k, ∃ h ∈ t.get? k, g ≤ h
  le_refl s k g hg := ⟨g, hg, le_rfl⟩
  le_trans s t u hst htu k g hg := by
    obtain ⟨h, hh, hgh⟩ := hst k g hg
    obtain ⟨h', hh', hhh'⟩ := htu k h hh
    exact ⟨h', hh', hgh.trans hhh'⟩

/-- A member of the kind covers the generator. -/
def Covers (s : KeySet) (g : Generator) : Prop := ∃ h ∈ s.get? g.kind, g ≤ h

theorem Covers.of_le (hg : s.Covers g) (hst : s ≤ t) : t.Covers g := by
  obtain ⟨h, hh, hgh⟩ := hg
  obtain ⟨h', hh', hhh'⟩ := hst g.kind h hh
  exact ⟨h', hh', hgh.trans hhh'⟩

/-- A settled member stays settled in all sets above, and its determinants only grow. -/
theorem settled_of_le (hst : s ≤ t) (hg : s.get? k = some g) (hp : g.provisional = false) :
    ∃ h, t.get? k = some h ∧ h.provisional = false ∧ Within g.determinants h.determinants := by
  obtain ⟨h, hh, hgh⟩ := hst k g hg
  exact ⟨h, hh, ((Generator.le_iff_of_settled hp).1 hgh).2⟩

/-! ### Additions -/

/-- The generator is provisional, and so is a different member of its kind. -/
def conflicts (s : KeySet) (g : Generator) : Bool :=
  (s.get? g.kind).any fun h => h.provisional && g.provisional && h != g

/-- Conflicts depend on the member of the kind only. -/
theorem conflicts_congr (h : s.get? g.kind = t.get? g.kind) : s.conflicts g = t.conflicts g := by
  rw [conflicts, h, conflicts]

theorem conflicts_iff : s.conflicts g = true ↔
    ∃ h, s.get? g.kind = some h ∧ h.provisional = true ∧ g.provisional = true ∧ h ≠ g := by
  simp only [conflicts, Option.any_eq_true, Bool.and_eq_true, bne_iff_ne, and_assoc]

theorem add_of_conflicts (hs : s.Sound) (hg : s.conflicts g = true) :
    s.add g = .error (.provisionalConflict g.kind.text) := by
  obtain ⟨h, hh, hhp, hgp, hne⟩ := conflicts_iff.1 hg
  have hk : h.kind = g.kind := hs g.kind h hh
  simp only [add, hh, Generator.combine_of_provisional hne hk hhp hgp, hk]

/-- Without a conflict the kind gets a generator that covers both what is added and the member that
was there. -/
theorem exists_add (hs : s.Sound) (hg : s.conflicts g = false) :
    ∃ c, s.add g = .ok ⟨s.generators.insert g.kind c⟩ ∧ g ≤ c ∧ ∀ h ∈ s.get? g.kind, h ≤ c := by
  cases hh : s.get? g.kind with
  | none => exact ⟨g, add_of_get?_eq_none hh, le_rfl, by simp⟩
  | some h =>
    have hcombinable : Generator.Combinable h g := by
      refine ⟨hs g.kind h hh, fun hhp hgp => ?_⟩
      by_contra hne
      exact Bool.false_ne_true (hg.symm.trans (conflicts_iff.2 ⟨h, hh, hhp, hgp, hne⟩))
    obtain ⟨c, hc⟩ := Generator.exists_combine_iff.2 hcombinable
    obtain ⟨hhc, hgc⟩ := (Generator.isLUB_pair_iff.1 (Generator.isLUB_of_combine hc) c).1 le_rfl
    refine ⟨c, by simp only [add, hh, hc], hgc, fun h' hh' => ?_⟩
    obtain rfl := Option.some.inj hh'
    exact hhc

theorem Sound.insert (hs : s.Sound) (hc : c.kind = k) :
    (⟨s.generators.insert k c⟩ : KeySet).Sound := by
  intro j g hg
  rw [get?_insert] at hg
  split at hg
  · next hj =>
    obtain rfl := Option.some.inj hg
    exact hc.trans hj.symm
  · exact hs j g hg

theorem le_insert (hc : ∀ h ∈ s.get? k, h ≤ c) : s ≤ ⟨s.generators.insert k c⟩ := by
  intro j g hg
  rw [get?_insert]
  split
  · next hj =>
    subst hj
    exact ⟨c, rfl, hc g hg⟩
  · exact ⟨g, hg, le_rfl⟩

/-- What adding the generators of a list to a set comes to. -/
inductive Extended (s : KeySet) (l : List Generator) : Except Error KeySet → Prop
  /-- No generator conflicts, and the set grows until it covers all of them. -/
  | grown {t : KeySet} (free : l.find? s.conflicts = none) (sound : t.Sound) (le : s ≤ t)
    (covers : ∀ g ∈ l, t.Covers g) : Extended s l (.ok t)
  /-- The first generator that conflicts is refused. -/
  | refused {g : Generator} (first : l.find? s.conflicts = some g) :
    Extended s l (.error (.provisionalConflict g.kind.text))

/-- What adding generators of different kinds comes to.  None of them changes whether another one
conflicts. -/
theorem extended_addAll (hs : s.Sound) (hl : l.Pairwise fun g h => g.kind ≠ h.kind) :
    Extended s l (s.addAll l) := by
  induction l generalizing s with
  | nil => exact .grown rfl hs le_rfl (by simp)
  | cons g l ih =>
    obtain ⟨hgl, hl⟩ := List.pairwise_cons.1 hl
    rw [addAll, List.foldlM_cons]
    cases hg : s.conflicts g with
    | true =>
      rw [add_of_conflicts hs hg]
      exact .refused (List.find?_cons_of_pos hg)
    | false =>
      obtain ⟨c, hadd, hgc, hc⟩ := exists_add hs hg
      have hck : c.kind = g.kind := (Generator.kind_eq_of_le hgc).symm
      have hfind : (g :: l).find? s.conflicts =
          l.find? (⟨s.generators.insert g.kind c⟩ : KeySet).conflicts := by
        rw [List.find?_cons_of_neg (by simp [hg])]
        refine List.find?_congr fun h hh => conflicts_congr ?_
        rw [get?_insert, if_neg (hgl h hh).symm]
      have hcovers : (⟨s.generators.insert g.kind c⟩ : KeySet).Covers g :=
        ⟨c, by simp [get?_insert], hgc⟩
      have hrest : Extended _ l (addAll ⟨s.generators.insert g.kind c⟩ l) := ih (hs.insert hck) hl
      rw [hadd]
      change Extended s (g :: l) (addAll ⟨s.generators.insert g.kind c⟩ l)
      generalize addAll ⟨s.generators.insert g.kind c⟩ l = r at hrest
      cases hrest with
      | grown free sound le covers =>
        refine .grown (hfind.trans free) sound ((le_insert hc).trans le) fun h hh => ?_
        obtain rfl | hh := List.mem_cons.1 hh
        · exact hcovers.of_le le
        · exact covers h hh
      | refused first => exact .refused (hfind.trans first)

theorem addAll_singleton (s : KeySet) (g : Generator) : s.addAll [g] = s.add g :=
  bind_pure (s.add g)

/-! ### Changes in place -/

/-- The change of a set for what an operation makes of it.  A refusal leaves the set as it was. -/
def kept (s : KeySet) : Except Error KeySet → Except Error Unit × KeySet
  | .ok t => (.ok (), t)
  | .error e => (.error e, s)

/-- Adds a generator to a set in place: the two generators are combined first, and the result is
written. -/
def addInPlace (g : Generator) (s : KeySet) : Except Error Unit × KeySet :=
  let combined := match s.get? g.kind with
    | some h => h.combine g
    | none => .ok g
  match combined with
  | .ok c => (.ok (), ⟨s.generators.insert g.kind c⟩)
  | .error e => (.error e, s)

/-- Adds the generators of a list to a set in place, up to the first one that is refused. -/
def stage : List Generator → KeySet → Except Error Unit × KeySet
  | [], s => (.ok (), s)
  | g :: l, s =>
    match addInPlace g s with
    | (.ok (), s) => stage l s
    | (.error e, s) => (.error e, s)

/-- Merges `t` into a set in place: its generators are added to a copy, which replaces the set if
all of them combine. -/
def mergeInPlace (t s : KeySet) : Except Error Unit × KeySet :=
  match stage t.toList s with
  | (.ok (), staged) => (.ok (), staged)
  | (.error e, _) => (.error e, s)

theorem addInPlace_eq (g : Generator) (s : KeySet) : addInPlace g s = kept s (s.add g) := by
  rw [addInPlace, add]
  cases s.get? g.kind with
  | none => rfl
  | some h => cases hc : h.combine g <;> simp only [hc, kept]

/-- A staged set is the one that all additions give, unless one of them is refused. -/
theorem addAll_eq_stage (l : List Generator) (s : KeySet) :
    s.addAll l = match stage l s with
      | (.ok (), staged) => .ok staged
      | (.error e, _) => .error e := by
  induction l generalizing s with
  | nil => rfl
  | cons g l ih =>
    rw [addAll, List.foldlM_cons, stage, addInPlace_eq]
    cases s.add g with
    | error e => rfl
    | ok t => exact ih t

/-- A merge that stops half-way leaves no trace of the generators that were combined before. -/
theorem mergeInPlace_eq (t s : KeySet) : mergeInPlace t s = kept s (s.merge t) := by
  rw [mergeInPlace, merge, addAll_eq_stage]
  rcases stage t.toList s with ⟨_ | _, _⟩ <;> rfl

/-- The features of the second set combine before its locales are refused.  Only the staged set
shows them. -/
example :
    let locales := Generator.tentative .locale
    let s : KeySet := ⟨.insert ∅ .locale (locales (some ["en"]))⟩
    let t : KeySet :=
      ⟨.insert (.insert ∅ .locale (locales (some ["fr"]))) .feature
        (.settled .feature (some ["dom"]))⟩
    (mergeInPlace t s).2 = s ∧ ((stage t.toList s).2.get? .feature).isSome = true := by
      decide +kernel

end KeySet

/-! ### Runs -/

/-- A call on key sets, which are known by numbers. -/
inductive Call where
  /-- A generator is added to a set. -/
  | add (set : Nat) (g : Generator)
  /-- A set is merged into another one, or into itself. -/
  | merge (set other : Nat)
  deriving DecidableEq

/-- The key sets by their numbers. -/
abbrev Sets := Nat → KeySet

namespace Call

/-- The set that a call changes. -/
def target : Call → Nat
  | add i _ => i
  | merge i _ => i

/-- The generators that a call adds, in order. -/
def generators (σ : Sets) : Call → List Generator
  | add _ g => [g]
  | merge _ j => (σ j).toList

/-- The change that a call makes to its target. -/
def change (σ : Sets) : Call → KeySet → Except Error Unit × KeySet
  | add _ g => KeySet.addInPlace g
  | merge _ j => KeySet.mergeInPlace (σ j)

/-- What a call returns, and the sets after it. -/
def perform (call : Call) (σ : Sets) : Except Error Unit × Sets :=
  let changed := call.change σ (σ call.target)
  (changed.1, Function.update σ call.target changed.2)

end Call

/-- The sets after some calls, whatever the calls return. -/
def run (calls : List Call) (σ : Sets) : Sets := calls.foldl (fun σ call => (call.perform σ).2) σ

/-- No set has a member. -/
def noMembers : Sets := fun _ => ∅

variable {σ : Sets} {call : Call}

theorem Call.change_eq (call : Call) (σ : Sets) (s : KeySet) :
    call.change σ s = s.kept (s.addAll (call.generators σ)) := by
  cases call with
  | add i g => rw [change, KeySet.addInPlace_eq, generators, KeySet.addAll_singleton]
  | merge i j => exact KeySet.mergeInPlace_eq (σ j) s

theorem Call.pairwise_generators (hσ : ∀ i, (σ i).Sound) (call : Call) :
    (call.generators σ).Pairwise fun g h => g.kind ≠ h.kind := by
  cases call with
  | add i g => exact List.pairwise_singleton _ _
  | merge i j => exact (hσ j).pairwise_toList

/-- What a call does to sound sets. -/
inductive Performed (call : Call) (σ : Sets) : Except Error Unit × Sets → Prop
  /-- The target grows until it covers what is added, and the other sets stay as they are. -/
  | grown {τ : Sets} (free : (call.generators σ).find? (σ call.target).conflicts = none)
      (sound : ∀ i, (τ i).Sound)
    (le : σ ≤ τ) (covers : ∀ g ∈ call.generators σ, (τ call.target).Covers g)
    (others : ∀ i, i ≠ call.target → τ i = σ i) : Performed call σ (.ok (), τ)
  /-- The first generator that conflicts is refused, and nothing is changed. -/
  | refused {g : Generator} (first : (call.generators σ).find? (σ call.target).conflicts = some g) :
    Performed call σ (.error (.provisionalConflict g.kind.text), σ)

theorem performed (hσ : ∀ i, (σ i).Sound) (call : Call) : Performed call σ (call.perform σ) := by
  have h := KeySet.extended_addAll (hσ call.target) (call.pairwise_generators hσ)
  rw [Call.perform, call.change_eq]
  generalize (σ call.target).addAll (call.generators σ) = r at h
  cases h with
  | grown free sound le covers =>
    refine .grown free (fun i => ?_) (le_update_self_iff.2 le) (fun g hg => ?_) fun i hi =>
      Function.update_of_ne hi _ _
    · by_cases hi : i = call.target
      · subst hi
        simpa [KeySet.kept] using sound
      · simpa [hi] using hσ i
    · simpa [KeySet.kept] using covers g hg
  | refused first => simpa [KeySet.kept] using Performed.refused first

theorem Performed.sound {r : Except Error Unit × Sets} (h : Performed call σ r)
    (hσ : ∀ i, (σ i).Sound) : ∀ i, (r.2 i).Sound := by
  cases h with
  | grown _ sound => exact sound
  | refused => exact hσ

theorem Performed.le {r : Except Error Unit × Sets} (h : Performed call σ r) : σ ≤ r.2 := by
  cases h with
  | grown _ _ le => exact le
  | refused => exact le_rfl

/-- The sets of a run are sound, and they only grow. -/
theorem run_of_sound (hσ : ∀ i, (σ i).Sound) (calls : List Call) :
    (∀ i, (run calls σ i).Sound) ∧ σ ≤ run calls σ := by
  induction calls generalizing σ with
  | nil => exact ⟨hσ, le_rfl⟩
  | cons call calls ih =>
    have hcall := performed hσ call
    obtain ⟨hsound, hle⟩ := ih (hcall.sound hσ)
    exact ⟨hsound, hcall.le.trans hle⟩

/-- **Runs of key sets, refused calls included.**  Every member of a set is stored under its own
kind.  The next call is refused exactly for the first generator that conflicts with its target,
never for a kind, and a refusal leaves all sets as they were.  Otherwise the target covers what was
added, and the other sets stay as they are.  What is settled stays so in all later states, and its
determinants only grow. -/
theorem run_invariants (calls more : List Call) (call : Call) :
    let σ := run calls noMembers
    (∀ i, (σ i).Sound)
      ∧ ((call.perform σ).1 = match (call.generators σ).find? (σ call.target).conflicts with
          | none => .ok ()
          | some g => .error (.provisionalConflict g.kind.text))
      ∧ (∀ e, (call.perform σ).1 = .error e →
          (∀ left right, e ≠ .kindMismatch left right) ∧ (call.perform σ).2 = σ)
      ∧ ((call.perform σ).1 = .ok () →
          (∀ g ∈ call.generators σ, ((call.perform σ).2 call.target).Covers g)
            ∧ ∀ i, i ≠ call.target → (call.perform σ).2 i = σ i)
      ∧ ∀ i k g, (σ i).get? k = some g → g.provisional = false →
          ∃ h, (run more σ i).get? k = some h ∧ h.provisional = false
            ∧ Within g.determinants h.determinants := by
  intro σ
  have hσ : ∀ i, (σ i).Sound := (run_of_sound (fun _ => KeySet.sound_empty) calls).1
  have hmore : σ ≤ run more σ := (run_of_sound hσ more).2
  have hcall := performed hσ call
  refine ⟨hσ, ?_, ?_, ?_, fun i k g hg hp => KeySet.settled_of_le (hmore i) hg hp⟩
  all_goals generalize call.perform σ = r at hcall
  · cases hcall with
    | grown free => rw [free]
    | refused first => rw [first]
  · cases hcall with
    | grown => exact fun e he => nomatch he
    | refused =>
      intro e he
      obtain rfl := Except.error.inj he
      exact ⟨fun _ _ => nofun, rfl⟩
  · cases hcall with
    | grown _ _ _ covers others => exact fun _ => ⟨covers, others⟩
    | refused => exact fun h => nomatch h

end ModuleAtlas.CacheKey
