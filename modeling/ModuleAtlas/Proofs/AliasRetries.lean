import Mathlib.Data.List.TakeWhile
import ModuleAtlas.Proofs.AliasBindings
import ModuleAtlas.Proofs.ConfiguredViews

/-!
# Retries of mounting aliases

Mounting aliases stops at the first one that is refused, and leaves mounted what came before it.  An
alias is refused for want of segments if its location has a tree, and for want of a tree only where
that is asked for.  So a lenient call goes at least as far as a strict one, and what it mounts
begins with what the strict one has mounted.

Mounting the same trees a second time changes nothing, whatever other aliases stand for the same
segments: the last of them wins again.  A lenient call after one that failed half-way therefore ends
as if it had been the first.

## Main definitions

* `Catalog.refuses`, `Catalog.refusal` — the aliases at which mounting stops, and the error.

## Main results

* `Catalog.mapAliases_eq` — what mounting aliases returns, and what it leaves mounted.
* `Catalog.exists_overlay_aliasCalls` — the trees of aliases go over those that were there.
* `Catalog.run_aliasCalls_twice` — **mounting the same aliases again, and more, is mounting all of
  them once.**
* `Catalog.mapAliases_retry` — **partial mounting is safe to retry.**
-/

namespace ModuleAtlas

open Namespace (Call run mounted)

namespace Catalog

variable {c : Catalog} {strict : Bool} {l m : List (String × Path)} {q : String × Path}

/-! ### Where mounting stops -/

/-- Whether mounting stops at an alias: it has a tree and no segments, or it has no tree and that is
an error. -/
def refuses (c : Catalog) (strict : Bool) (q : String × Path) : Bool :=
  match c.location q.2 with
  | some _ => (segments q.1).isEmpty
  | none => strict

/-- The error at an alias where mounting stops. -/
def refusal (c : Catalog) (q : String × Path) : Error :=
  match c.location q.2 with
  | some _ => .configuration s!"Alias name '{q.1}' is empty"
  | none => .missingAlias q.1 q.2.text

/-- What mounting aliases returns, and what it leaves mounted. -/
theorem mapAliases_eq (c : Catalog) (strict : Bool) (l : List (String × Path)) (ns : Namespace) :
    c.mapAliases strict ns l = ((l.find? (c.refuses strict)).map c.refusal,
      (c.aliasCalls (l.takeWhile fun q => !c.refuses strict q)).foldl Namespace.perform ns) := by
  induction l generalizing ns with
  | nil => rfl
  | cons q l ih =>
    obtain ⟨name, p⟩ := q
    cases ht : c.location p with
    | none =>
      cases strict with
      | true =>
        have hrefuses : c.refuses true (name, p) = true := by simp [refuses, ht]
        simp [mapAliases, ht, List.find?_cons_of_pos hrefuses, hrefuses, refusal, aliasCalls]
      | false =>
        have hrefuses : c.refuses false (name, p) = false := by simp [refuses, ht]
        simp [mapAliases, ht, hrefuses, ih, aliasCalls]
    | some t =>
      by_cases hname : segments name = []
      · have hrefuses : c.refuses strict (name, p) = true := by simp [refuses, ht, hname]
        simp [mapAliases, ht, Namespace.attach_of_segments_eq_nil hname, hrefuses,
          refusal, aliasCalls]
      · have hrefuses : c.refuses strict (name, p) = false := by simp [refuses, ht, hname]
        have hattach : ns.attach name t = .ok (ns.perform (.attach name t)) := by
          simp [Namespace.perform, Namespace.attach, hname]
        simp [mapAliases, ht, hattach, hrefuses, ih, aliasCalls]

/-- A lenient call stops only where a strict one does. -/
theorem refuses_of_lenient (h : c.refuses false q = true) (strict : Bool) :
    c.refuses strict q = true := by
  cases ht : c.location q.2 with
  | none => simp [refuses, ht] at h
  | some t =>
    simp only [refuses, ht] at h ⊢
    exact h

theorem refuses_strict (c : Catalog) (q : String × Path) :
    c.refuses true q = decide (c.location q.2 = none ∨ segments q.1 = []) := by
  rw [Bool.eq_iff_iff]
  cases ht : c.location q.2 <;> simp [refuses, ht]

theorem refusal_eq_missingAlias_iff {name text : String} :
    c.refusal q = .missingAlias name text ↔ c.location q.2 = none ∧ q.1 = name ∧
      q.2.text = text := by
  cases ht : c.location q.2 <;> simp [refusal, ht]

/-- A lenient call misses no tree. -/
theorem refusal_ne_missingAlias (h : c.refuses false q = true) (name text : String) :
    c.refusal q ≠ .missingAlias name text := by
  intro hmissing
  obtain ⟨ht, -⟩ := refusal_eq_missingAlias_iff.1 hmissing
  simp [refuses, ht] at h

/-- On an error, the aliases before the one that is refused are mounted. -/
theorem exists_refused (c : Catalog) {ns : Namespace} {e : Error}
    (h : (c.mapAliases strict ns l).1 = some e) :
    ∃ before q after, l = before ++ q :: after ∧ (∀ r ∈ before, c.refuses strict r = false) ∧
      c.refuses strict q = true ∧ e = c.refusal q ∧
        (c.mapAliases strict ns l).2 = (c.aliasCalls before).foldl Namespace.perform ns := by
  rw [mapAliases_eq] at h ⊢
  obtain ⟨q, hq, rfl⟩ := Option.map_eq_some_iff.1 h
  obtain ⟨hrefused, before, after, rfl, hbefore⟩ := List.find?_eq_some_iff_append.1 hq
  have htake : (before ++ q :: after).takeWhile (fun r => !c.refuses strict r) = before := by
    rw [List.takeWhile_append_of_pos hbefore, List.takeWhile_cons_of_neg (by simp [hrefused]),
      List.append_nil]
  exact ⟨before, q, after, rfl, fun r hr => by simpa using hbefore r hr, hrefused, rfl,
    by rw [htake]⟩

/-! ### Mounting again -/

/-- The trees of aliases go over those that were there. -/
theorem exists_overlay_aliasCalls (c : Catalog) (l : List (String × Path)) :
    ∃ overlay : AliasMap, ∀ m path, (c.aliasCalls l).foldl Call.mounting m path =
      (overlay path).or (m path) := by
  induction l with
  | nil => exact ⟨fun _ => none, fun m path => rfl⟩
  | cons q l ih =>
    obtain ⟨overlay, hoverlay⟩ := ih
    cases ht : c.location q.2 with
    | none =>
      have hcalls : c.aliasCalls (q :: l) = c.aliasCalls l := by simp [aliasCalls, ht]
      exact ⟨overlay, by rw [hcalls]; exact hoverlay⟩
    | some t =>
      have hcalls : c.aliasCalls (q :: l) = .attach q.1 t :: c.aliasCalls l := by
        simp [aliasCalls, ht]
      refine ⟨fun path => (overlay path).or (Call.mounting (fun _ => none) (.attach q.1 t) path),
        fun m path => ?_⟩
      rw [hcalls, List.foldl_cons, hoverlay, Option.or_assoc]
      congr 1
      simp only [Call.mounting]
      split
      · rfl
      · rw [Function.update_apply, Function.update_apply]
        split <;> rfl

/-- **Mounting the same aliases again, and more, is mounting all of them once.** -/
theorem run_aliasCalls_twice (c : Catalog) (calls : List Call) (l m : List (String × Path)) :
    run (calls ++ c.aliasCalls l ++ c.aliasCalls (l ++ m)) =
      run (calls ++ c.aliasCalls (l ++ m)) := by
  obtain ⟨overlay, hoverlay⟩ := c.exists_overlay_aliasCalls l
  have htwice : ∀ before : AliasMap,
      (c.aliasCalls l).foldl Call.mounting ((c.aliasCalls l).foldl Call.mounting before)
        = (c.aliasCalls l).foldl Call.mounting before := by
    intro before
    funext path
    rw [hoverlay, hoverlay, ← Option.or_assoc, Option.or_self]
  have hmounted : mounted (calls ++ c.aliasCalls l ++ c.aliasCalls (l ++ m))
      = mounted (calls ++ c.aliasCalls (l ++ m)) := by
    have hcalls : c.aliasCalls (l ++ m) = c.aliasCalls l ++ c.aliasCalls m :=
      List.filterMap_append ..
    simp only [hcalls, mounted, List.foldl_append, htwice]
  have hholds := Namespace.holds_run (calls ++ c.aliasCalls l ++ c.aliasCalls (l ++ m))
  rw [hmounted] at hholds
  exact hholds.eq_of_holds (Namespace.holds_run _)

/-- A strict call stops on the way of a lenient one. -/
theorem exists_takeWhile_eq_append (c : Catalog) (strict : Bool) (l : List (String × Path)) :
    ∃ m, (l.takeWhile fun q => !c.refuses false q) =
      (l.takeWhile fun q => !c.refuses strict q) ++ m := by
  have hboth : (l.takeWhile fun q => !c.refuses false q).takeWhile (fun q => !c.refuses strict q)
      = l.takeWhile fun q => !c.refuses strict q := by
    rw [List.takeWhile_takeWhile]
    congr 1
    funext q
    cases hq : c.refuses false q with
    | false => simp
    | true => simp [refuses_of_lenient hq strict]
  obtain ⟨m, hm⟩ : (l.takeWhile fun q => !c.refuses strict q) <+: l.takeWhile fun q =>
      !c.refuses false q :=
    hboth ▸ List.takeWhile_prefix _
  exact ⟨m, hm.symm⟩

theorem mapAliases_run (c : Catalog) (strict : Bool) (calls : List Call)
    (l : List (String × Path)) :
    c.mapAliases strict (run calls) l = ((l.find? (c.refuses strict)).map c.refusal,
      run (calls ++ c.aliasCalls (l.takeWhile fun q => !c.refuses strict q))) := by
  rw [mapAliases_eq, run, run, List.foldl_append]

/-- **Partial mounting is safe to retry.**  A lenient call never misses a tree.  A strict one misses
that of the first alias, in the order of names, that has no tree or no segments, if it is the tree
that this alias lacks.  On an error exactly the trees of the aliases before the refused one are
mounted, in order.  After any call, and so after one that failed, a lenient call returns and leaves
what it would have on the original name space. -/
theorem mapAliases_retry (c : Catalog) (calls : List Call) (aliases : SortedMap String Path) :
    let ns := run calls
    (∀ name text, (c.mapAliases false ns aliases.toList).1 ≠ some (.missingAlias name text)) ∧
      (∀ name text, (c.mapAliases true ns aliases.toList).1 = some (.missingAlias name text) ↔
        ∃ p, aliases.toList.find? (fun q => c.location q.2 = none ∨ segments q.1 = []) =
            some (name, p) ∧
          c.location p = none ∧ p.text = text) ∧
      (∀ strict e, (c.mapAliases strict ns aliases.toList).1 = some e →
        ∃ before q after, aliases.toList = before ++ q :: after ∧
        (∀ r ∈ before, c.refuses strict r = false) ∧
          c.refuses strict q = true ∧ e = c.refusal q ∧
            (c.mapAliases strict ns aliases.toList).2 = run (calls ++ c.aliasCalls before)) ∧
      ∀ strict, c.mapAliases false (c.mapAliases strict ns aliases.toList).2 aliases.toList
        = c.mapAliases false ns aliases.toList := by
  intro ns
  refine ⟨?_, ?_, ?_, ?_⟩
  · intro name text h
    obtain ⟨-, q, -, -, -, hq, hmissing, -⟩ := c.exists_refused h
    exact refusal_ne_missingAlias hq name text hmissing.symm
  · intro name text
    rw [mapAliases_eq, funext c.refuses_strict, Option.map_eq_some_iff]
    simp only [refusal_eq_missingAlias_iff]
    constructor
    · rintro ⟨⟨_, p⟩, hq, ht, rfl, htext⟩
      exact ⟨p, hq, ht, htext⟩
    · rintro ⟨p, hq, ht, htext⟩
      exact ⟨(name, p), hq, ht, rfl, htext⟩
  · intro strict e h
    obtain ⟨before, q, after, hl, hbefore, hq, he, hroot⟩ := c.exists_refused h
    refine ⟨before, q, after, hl, hbefore, hq, he, ?_⟩
    rw [hroot, run, List.foldl_append]
    rfl
  · intro strict
    obtain ⟨m, hm⟩ := c.exists_takeWhile_eq_append strict aliases.toList
    rw [mapAliases_run c strict, mapAliases_run c false, mapAliases_run c false, hm,
      run_aliasCalls_twice]

/-- Two aliases with the same segments, then one without a tree, then a third one. -/
example :
    let c : Catalog :=
      { settings := .ofLocations [] "sig",
        trees := .ofList [(⟨"one"⟩, .new "one"), (⟨"two"⟩, .new "two")] }
    let aliases : SortedMap String Path :=
      .ofList [("lib", ⟨"one"⟩), ("lib/", ⟨"./two"⟩), ("none", ⟨"three"⟩), ("own", ⟨"one"⟩)]
    let half := c.mapAliases true ∅ aliases.toList
    let again := c.mapAliases false half.2 aliases.toList
    (half.1 = some (.missingAlias "none" "three") ∧ half.2.aliases = ["lib"] ∧
      half.2.tree? "lib" = some (.new "two"))
      ∧ again.1 = none ∧ again.2.aliases = ["lib", "own"] ∧
        again.2.tree? "lib" = some (.new "two") := by
  with_unfolding_all decide

end Catalog

end ModuleAtlas
