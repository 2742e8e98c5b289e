import Mathlib.Data.List.Basic
import ModuleAtlas.Proofs.KeyCollisions
import ModuleAtlas.Proofs.KeySetRuns

/-!
# What cache keys depend on

A cache key is made of the answers of a request to the determinants of a key set, so that requests
which agree on the determinants have one key, whatever else they ask for.  A locale determinant is
answered by any of the requested locales, which may come in any order.

A generator that the settled member of its kind covers is absorbed: adding it leaves the set as it
was, and with the set the keys of all requests.

## Main results

* `Generator.part?_eq_iff` — a determinant is answered alike by the requests that agree on it.
* `Generator.text_congr` — what a generator adds to the key depends on the answers to its
  determinants.
* `KeySet.isSome_key_iff`, `KeySet.key_congr` — when there is a key, and on what it depends.
* `KeySet.add_of_le` — a generator that is covered is absorbed.
* `KeySet.key_dependence` — **a cache key depends on nothing but the determinants.**
-/

namespace ModuleAtlas.CacheKey

variable {x y : Conditions}

/-! ### Requests that agree -/

/-- Locales are asked for in any order, and any number of times. -/
theorem Conditions.hasLocale_congr (h : ∀ l, l ∈ x.locales ↔ l ∈ y.locales) (d : String) :
    x.hasLocale d = y.hasLocale d := by
  rw [Bool.eq_iff_iff, hasLocale, hasLocale, List.any_eq_true, List.any_eq_true]
  simp only [h]

theorem Conditions.agreeOn_of_mem_iff (hfeatures : x.features = y.features)
    (hvalues : x.values = y.values) (hlocales : ∀ l, l ∈ x.locales ↔ l ∈ y.locales) (kind : Kind)
    (d : String) : x.AgreeOn y kind d := by
  cases kind with
  | feature => exact congrArg (fun features => features.find? d) hfeatures
  | locale => exact hasLocale_congr hlocales d
  | custom name => exact congrArg (fun values => values.find? d) hvalues

namespace Generator

/-- A determinant is answered alike by the requests that agree on it, and by no others. -/
theorem part?_eq_iff {kind : Kind} {d : String} : part? kind x d = part? kind y d ↔
    x.AgreeOn y kind d := by
  refine ⟨agreeOn_of_part?_eq, fun h => ?_⟩
  cases kind with
  | feature =>
    have h : x.features.find? d = y.features.find? d := h
    rw [part?, part?, h]
  | locale =>
    have h : x.hasLocale d = y.hasLocale d := h
    rw [part?, part?, h]
  | custom name =>
    have h : x.values.find? d = y.values.find? d := h
    rw [part?, part?, h]

/-! ### Fragments -/

/-- What a generator adds to the key depends on the answers to its determinants. -/
theorem text_congr {g : Generator}
    (h : ∀ set ∈ g.determinants, ∀ d ∈ set.toList, x.AgreeOn y g.kind d) : g.text x = g.text y := by
  rw [text, text]
  cases hset : g.determinants with
  | none => rfl
  | some set =>
    have hanswers : answers g.kind set x = answers g.kind set y :=
      List.filterMap_congr fun d hd => part?_eq_iff.2 (h set hset d hd)
    simp only [inner, hanswers]

/-- What a settled generator covers, among the generators of its kind. -/
theorem le_settled_iff {g h : Generator} (hk : g.kind = h.kind) (hh : h.provisional = false) :
    g ≤ h ↔ g.provisional = true ∨ Within g.determinants h.determinants := by
  cases hg : g.provisional with
  | true => simp [le_of_provisional hk hg hh]
  | false => simp [le_iff_of_settled hg, hk, hh]

end Generator

/-! ### Keys -/

namespace KeySet

variable {s : KeySet} {g h : Generator}

theorem isProvisional_eq_false_iff : s.isProvisional = false ↔ ∀ g ∈ s.toList,
    g.provisional = false := by
  simp [isProvisional]

/-- A provisional member keeps the set from having a key. -/
theorem key_of_provisional (hs : s.isProvisional = true) (x : Conditions) : s.key x = none := by
  obtain ⟨g, hg, hp⟩ := List.any_eq_true.1 hs
  rw [key]
  have hnone : (s.toList.mapM fun g : Generator => g.fragment x) = none := by
    generalize s.toList = l at hg
    induction l with
    | nil => cases hg
    | cons h l ih =>
      rw [List.mapM_cons]
      obtain rfl | hg := List.mem_cons.1 hg
      · rw [Generator.fragment_of_provisional hp]
        rfl
      · rw [ih hg]
        cases h.fragment x <;> rfl
  rw [hnone]
  rfl

/-- There is a key just if no member is provisional. -/
theorem isSome_key_iff : (s.key x).isSome ↔ ∀ g ∈ s.toList, g.provisional = false := by
  rw [← isProvisional_eq_false_iff]
  cases hs : s.isProvisional with
  | true => simp [key_of_provisional hs]
  | false => simp [key_of_settled hs]

/-- Requests that agree have one key, or none. -/
theorem key_congr (h : s.Agree x y) : s.key x = s.key y := by
  cases hs : s.isProvisional with
  | true => rw [key_of_provisional hs, key_of_provisional hs]
  | false =>
    have htexts : (s.toList.map fun g => g.text x) = s.toList.map fun g => g.text y :=
      List.map_congr_left fun g hg => Generator.text_congr (h g hg)
    rw [key_of_settled hs, key_of_settled hs, htexts]

/-! ### Absorbed generators -/

/-- A generator that the member of its kind covers is absorbed. -/
theorem add_of_le (hh : s.get? g.kind = some h) (hle : g ≤ h) : s.add g = .ok s := by
  have hsame : (⟨s.generators.insert g.kind h⟩ : KeySet) = s := by
    apply eq_of_get?_eq
    intro k
    rw [get?_insert]
    split
    · next hk => rw [hk, hh]
    · rfl
  simp only [add, hh, Generator.combine_of_le hle, hsame]

/-- **A cache key depends on nothing but the determinants.**  There is a key just if no member is
provisional.  Requests that agree on every determinant have one key, and so have requests that list
the same locales in different orders.  The settled member of a kind absorbs every provisional
generator, and every settled one whose determinants it has: the set stays as it is, so that no
request gets another key. -/
theorem key_dependence (s : KeySet) :
    (∀ x, (s.key x).isSome ↔ ∀ g ∈ s.toList, g.provisional = false)
      ∧ (∀ x y, s.Agree x y → s.key x = s.key y)
      ∧ (∀ x y : Conditions, x.features = y.features → x.values = y.values →
          (∀ l, l ∈ x.locales ↔ l ∈ y.locales) → s.key x = s.key y)
      ∧ ∀ g h, s.get? g.kind = some h → h.provisional = false →
          (g.provisional = true ∨ Within g.determinants h.determinants) →
            (∀ x, (addInPlace g s).2.key x = s.key x) ∧ (s.Sound → s.add g = .ok s) := by
  refine ⟨fun x => isSome_key_iff, fun x y => key_congr, ?_, ?_⟩
  · intro x y hfeatures hvalues hlocales
    exact key_congr fun g _ _ _ d _ =>
      Conditions.agreeOn_of_mem_iff hfeatures hvalues hlocales g.kind d
  · intro g h hh hsettled hcovered
    have habsorbed : g.kind = h.kind → s.add g = .ok s := fun hk =>
      add_of_le hh ((Generator.le_settled_iff hk hsettled).2 hcovered)
    refine ⟨fun x => ?_, fun hs => habsorbed (hs g.kind h hh).symm⟩
    rw [addInPlace_eq]
    by_cases hk : g.kind = h.kind
    · rw [habsorbed hk, kept]
    · -- a member that is stored under another kind makes the set refuse the generator
      simp only [add, hh, Generator.combine_of_kind_ne (Ne.symm hk), kept]

/-- Two requests that agree, and a generator that is absorbed. -/
example :
    let s := ofSettled [(.feature, ["dom", "touch"]), (.locale, ["en", "fr"]),
      (.custom "theme", ["skin"])]
    let x : Conditions := { features := .ofList [("dom", true)], locales := ["fr", "de", "en-US"] }
    let y : Conditions :=
      { features := .ofList [("dom", true), ("wide", false)], locales := ["EN", "fr-CA", "en"],
        values := .ofList [("density", "compact")] }
    s.Agree x y ∧ x.locales ≠ y.locales ∧
      s.key x = some "feature\x7bdom\x7d;locale\x7ben,fr\x7d;theme\x7b\x7d"
      ∧ s.key y = s.key x ∧ s.add (.settled .feature (some ["touch"])) = .ok s := by decide +kernel

end KeySet

end ModuleAtlas.CacheKey
