import Mathlib.Algebra.Order.BigOperators.Group.List
import Mathlib.Algebra.Order.Ring.Nat
import ModuleAtlas.Proofs.Resolution

/-!
# Traversal of requests

The closure of a request is computed with a stack of pending modules.  It is specified by a
recursive depth-first traversal: a module that was met before is passed over, an id without a source
file is noted, and any other module is listed and then all that its definition names is traversed,
before the traversal goes on.

The stack keeps modules that are listed while they wait, and leaves out those that are listed
already when their referrer is.  Neither shows in the result, since listed modules stay listed.  The
stack runs empty because each listed module is a row of some mounted tree and gives no more pending
modules than the specifiers of that row, and every row is listed under one id only.

## Main definitions

* `Namespace.Visits` — the recursive traversal, from what was met before to what is met after.
* `Namespace.mountedRows`, `Namespace.remaining` — the rows of mounted trees, and the specifiers of
  those rows that are not listed yet.

## Main results

* `Namespace.Visits.deterministic`, `Namespace.visits_append` — traversals have one result, and
  compose.
* `Namespace.remaining_add_le` — listing a module uses up the specifiers of its row.
* `Namespace.exists_visit` — **the stack runs empty, and what it leaves is the result of the
  traversal.**
* `Namespace.expand_traverses` — hence a closure is the result of the recursive traversal.
-/

namespace ModuleAtlas

namespace Namespace

variable {ns : Namespace}

/-! ### The recursive traversal -/

/-- The depth-first traversal of modules one after the other. -/
inductive Visits (ns : Namespace) : List Pending → Closure → Closure → Prop
  /-- There is nothing to visit. -/
  | done (c : Closure) : Visits ns [] c c
  /-- The first module was met before, so nothing is to be done for it. -/
  | seen {p : Pending} {rest : List Pending} {c c' : Closure} (hmet : p.id ∈ c.modules)
      (hrest : Visits ns rest c c') : Visits ns (p :: rest) c c'
  /-- No source file has the first id, which is noted unless it was. -/
  | missing {p : Pending} {rest : List Pending} {c c' : Closure} (hmet : p.id ∉ c.modules)
      (hnone : ∀ n, ¬ ns.Backs p.id n)
      (hrest : Visits ns rest { c with dangling := addNew c.dangling p.link } c') :
      Visits ns (p :: rest) c c'
  /-- The first module is listed, then what its definition names is visited, then the rest. -/
  | enter {p : Pending} {rest : List Pending} {c c₁ c' : Closure} {n : Node}
      (hmet : p.id ∉ c.modules)
      (hn : ns.Backs p.id n)
      (hbelow : Visits ns (n.deps.define.map (.ofSpecifier p.id))
        { c with modules := c.modules ++ [p.id] } c₁)
      (hrest : Visits ns rest c₁ c') : Visits ns (p :: rest) c c'

theorem Visits.deterministic {ps : List Pending} {c d e : Closure} (hd : ns.Visits ps c d)
    (he : ns.Visits ps c e) : d = e := by
  induction hd generalizing e with
  | done c =>
    cases he
    rfl
  | seen hmet _ ih =>
    cases he with
    | seen _ hrest => exact ih hrest
    | missing hnot _ _ => exact absurd hmet hnot
    | enter hnot _ _ _ => exact absurd hmet hnot
  | missing hmet hnone _ ih =>
    cases he with
    | seen hmet' _ => exact absurd hmet' hmet
    | missing _ _ hrest => exact ih hrest
    | enter _ hn _ _ => exact absurd hn (hnone _)
  | enter hmet hn _ _ ihbelow ihrest =>
    cases he with
    | seen hmet' _ => exact absurd hmet' hmet
    | missing _ hnone _ => exact absurd hn (hnone _)
    | enter _ hn' hbelow hrest =>
      obtain rfl := hn.unique hn'
      obtain rfl := ihbelow hbelow
      exact ihrest hrest

/-- Listed modules stay listed. -/
theorem Visits.modules_subset {ps : List Pending} {c d : Closure} (h : ns.Visits ps c d) :
    c.modules ⊆ d.modules := by
  induction h with
  | done c => exact List.Subset.refl _
  | seen _ _ ih => exact ih
  | missing _ _ _ ih => exact ih
  | enter _ _ _ _ ihbelow ihrest =>
    intro id hid
    exact ihrest (ihbelow (List.mem_append_left _ hid))

/-- A traversal of two lists is one of the first and then one of the second. -/
theorem visits_append {l m : List Pending} {c e : Closure} (h : ns.Visits (l ++ m) c e) :
    ∃ d, ns.Visits l c d ∧ ns.Visits m d e := by
  -- the first visit belongs to the first list, unless that is empty
  generalize hps : l ++ m = ps at h
  induction h generalizing l with
  | done c =>
    obtain ⟨rfl, rfl⟩ := List.append_eq_nil_iff.1 hps
    exact ⟨c, .done c, .done c⟩
  | @seen p rest c c' hmet hrest ih =>
    cases l with
    | nil => exact ⟨c, .done c, by rw [List.nil_append] at hps; rw [hps]; exact .seen hmet hrest⟩
    | cons q l =>
      obtain ⟨rfl, htail⟩ := List.cons.inj hps
      obtain ⟨d, hl, hm⟩ := ih htail
      exact ⟨d, .seen hmet hl, hm⟩
  | @missing p rest c c' hmet hnone hrest ih =>
    cases l with
    | nil => exact ⟨c, .done c, by
        rw [List.nil_append] at hps; rw [hps]; exact .missing hmet hnone hrest⟩
    | cons q l =>
      obtain ⟨rfl, htail⟩ := List.cons.inj hps
      obtain ⟨d, hl, hm⟩ := ih htail
      exact ⟨d, .missing hmet hnone hl, hm⟩
  | @enter p rest c c₁ c' n hmet hn hbelow hrest _ ih =>
    cases l with
    | nil => exact ⟨c, .done c, by
        rw [List.nil_append] at hps; rw [hps]; exact .enter hmet hn hbelow hrest⟩
    | cons q l =>
      obtain ⟨rfl, htail⟩ := List.cons.inj hps
      obtain ⟨d, hl, hm⟩ := ih htail
      exact ⟨d, .enter hmet hn hbelow hl, hm⟩

/-- Modules that are listed at the start may be left out of a traversal or not. -/
theorem visits_of_filter {listed : List String} : ∀ {ps : List Pending} {c d : Closure},
    listed ⊆ c.modules → ns.Visits (ps.filter fun p => p.id ∉ listed) c d → ns.Visits ps c d := by
  intro ps
  induction ps with
  | nil => intro c d _ h; exact h
  | cons p ps ih =>
    intro c d hlisted h
    by_cases hp : p.id ∈ listed
    · rw [List.filter_cons_of_neg (by simp [hp])] at h
      exact .seen (hlisted hp) (ih hlisted h)
    · rw [List.filter_cons_of_pos (by simp [hp])] at h
      cases h with
      | seen hmet hrest => exact .seen hmet (ih hlisted hrest)
      | missing hmet hnone hrest => exact .missing hmet hnone (ih hlisted hrest)
      | enter hmet hn hbelow hrest =>
        refine .enter hmet hn hbelow (ih ?_ hrest)
        intro id hid
        exact hbelow.modules_subset (List.mem_append_left _ (hlisted hid))

/-! ### How many visits there are -/

/-- The rows of all mounted trees, each with the alias, the tree and the place. -/
def mountedRows (ns : Namespace) : List ((List String × Tree) × Node × Nat) :=
  ns.bindings.flatMap fun b => b.2.nodes.toList.zipIdx.map (b, ·)

/-- A row is listed under the id that its alias and its path give. -/
def Listed (modules : List String) (r : (List String × Tree) × Node × Nat) : Prop :=
  ∃ below, r.1.2.descend? Tree.root below = some r.2.2 ∧ joinSegments (r.1.1 ++ below) ∈ modules

open Classical in
/-- The number of specifiers in the definitions of all rows that are not listed. -/
noncomputable def remaining (ns : Namespace) (modules : List String) : Nat :=
  (ns.mountedRows.map fun r => if Listed modules r then 0 else r.2.1.deps.define.length).sum

theorem mem_mountedRows {top : List String} {t : Tree} {n : Node} {i : Nat}
    (hb : (top, t) ∈ ns.bindings) (hn : t.node? i = some n) :
    ((top, t), n, i) ∈ ns.mountedRows := by
  refine List.mem_flatMap.2 ⟨(top, t), hb, List.mem_map_of_mem ?_⟩
  rw [List.mem_zipIdx_iff_getElem?, Array.getElem?_toList]
  exact hn

theorem sum_map_add_le {α : Type} {f g : α → Nat} {a : α} {k : Nat} : ∀ {l : List α}, a ∈ l →
    (∀ b ∈ l, f b ≤ g b) → f a + k ≤ g a → (l.map f).sum + k ≤ (l.map g).sum := by
  intro l
  induction l with
  | nil => intro ha; simp at ha
  | cons b l ih =>
    intro ha hle hk
    rw [List.map_cons, List.sum_cons, List.map_cons, List.sum_cons]
    have hb : f b ≤ g b := hle b List.mem_cons_self
    have htail : ∀ b ∈ l, f b ≤ g b := fun b hb => hle b (List.mem_cons_of_mem _ hb)
    rcases List.mem_cons.1 ha with rfl | ha
    · have hsum : (l.map f).sum ≤ (l.map g).sum := List.sum_le_sum htail
      omega
    · have hsum := ih ha htail hk
      omega

/-- Listing a module uses up the specifiers of its row: no other id lists the row. -/
theorem remaining_add_le (hns : ns.Sound) {modules : List String} {id : String} {n : Node}
    (hn : ns.Backs id n) (hid : normalizeId id = id) (hmet : id ∉ modules) :
    ns.remaining (modules ++ [id]) + n.deps.define.length ≤ ns.remaining modules := by
  obtain ⟨top, t, below, i, hb, hd, hrow, hsegments⟩ := exists_row_of_backs hns hn
  have hjoin : joinSegments (top ++ below) = id := by rw [← hsegments]; exact hid
  have hlisted : Listed (modules ++ [id]) ((top, t), n, i) := ⟨below, hd, by simp [hjoin]⟩
  -- the row has one path, and the id of that path is new
  have hfresh : ¬ Listed modules ((top, t), n, i) := by
    rintro ⟨other, hother, hmem⟩
    have hpath : other = below := (hns.linked hb).descend?_injective hother hd
    rw [hpath, hjoin] at hmem
    exact hmet hmem
  apply sum_map_add_le (mem_mountedRows hb hrow)
  · intro r _
    by_cases hr : Listed modules r
    · have hr' : Listed (modules ++ [id]) r := by
        obtain ⟨path, hpath, hmem⟩ := hr
        exact ⟨path, hpath, List.mem_append_left _ hmem⟩
      rw [if_pos hr, if_pos hr']
    · rw [if_neg hr]
      split
      · exact Nat.zero_le _
      · exact Nat.le_refl _
  · rw [if_pos hlisted, if_neg hfresh, Nat.zero_add]

/-- To begin with, all specifiers of mounted trees remain. -/
theorem remaining_le (ns : Namespace) (modules : List String) :
    ns.remaining modules ≤ (ns.bindings.map fun b => definedBy b.2).sum := by
  -- the rows of one table, and then those of all tables
  have hrow : ∀ (l : List Node) (k : Nat),
      ((l.zipIdx k).map fun r => r.1.deps.define.length).sum
        = l.foldr (fun n sum => n.deps.define.length + sum) 0 := by
    intro l
    induction l with
    | nil => intro k; rfl
    | cons n l ih => intro k; rw [List.zipIdx_cons, List.map_cons, List.sum_cons, ih]; rfl
  have hall : ∀ l : List (List String × Tree),
      ((l.flatMap fun b => b.2.nodes.toList.zipIdx.map (b, ·)).map fun r =>
        r.2.1.deps.define.length).sum
        = (l.map fun b => definedBy b.2).sum := by
    intro l
    induction l with
    | nil => rfl
    | cons b l ih =>
      rw [List.flatMap_cons, List.map_append, List.sum_append, ih, List.map_map, List.map_cons,
        List.sum_cons]
      congr 1
      exact hrow b.2.nodes.toList 0
  rw [← hall ns.bindings]
  apply List.sum_le_sum
  intro r _
  split
  · exact Nat.zero_le _
  · exact Nat.le_refl _

theorem visitBound_eq (ns : Namespace) (requests : Nat) :
    ns.visitBound requests = (ns.bindings.map fun b => definedBy b.2).sum +
      (requests + UInt64.size) := by
  rw [visitBound]
  induction ns.bindings with
  | nil => simp
  | cons b l ih => rw [List.foldr_cons, ih, List.map_cons, List.sum_cons, Nat.add_assoc]

/-! ### The stack -/

/-- **The stack runs empty, and what it leaves is the result of the traversal.** -/
theorem exists_visit (hns : ns.Sound) : ∀ {steps : Nat} {ps : List Pending} {c : Closure},
    (∀ p ∈ ps, normalizeId p.id = p.id) → ps.length + ns.remaining c.modules ≤ steps →
      ∃ d, ns.visit steps ps c = .ok d ∧ ns.Visits ps c d := by
  intro steps
  -- every step takes a module off the stack; one that is listed pays for those that its definition
  -- puts there
  induction steps with
  | zero =>
    intro ps c _ hsteps
    have hnil : ps = [] := List.length_eq_zero_iff.1 (by omega)
    rw [hnil]
    exact ⟨c, visit_nil ns 0 c, .done c⟩
  | succ steps ih =>
    intro ps c hnormal hsteps
    cases ps with
    | nil => exact ⟨c, visit_nil ns _ c, .done c⟩
    | cons p rest =>
      have hp : normalizeId p.id = p.id := hnormal p List.mem_cons_self
      have hrest : ∀ q ∈ rest, normalizeId q.id = q.id :=
        fun q hq => hnormal q (List.mem_cons_of_mem _ hq)
      rw [List.length_cons] at hsteps
      by_cases hmet : p.id ∈ c.modules
      · obtain ⟨d, hd, hv⟩ := ih (c := c) hrest (by omega)
        exact ⟨d, by rw [visit, if_pos hmet, hd], .seen hmet hv⟩
      · by_cases hbacks : ∃ n, ns.Backs p.id n
        · obtain ⟨n, hn⟩ := hbacks
          -- the specifiers of the row are used up by the modules that go onto the stack
          let met : Closure := { c with modules := c.modules ++ [p.id] }
          let next := (n.deps.define.map (Pending.ofSpecifier p.id)).filter fun q =>
            q.id ∉ met.modules
          have hnext : next.length ≤ n.deps.define.length := by
            have hfilter : next.length ≤ (n.deps.define.map (Pending.ofSpecifier p.id)).length :=
              List.length_filter_le _ _
            rwa [List.length_map] at hfilter
          have hused : ns.remaining met.modules + n.deps.define.length ≤ ns.remaining c.modules :=
            remaining_add_le hns hn hp hmet
          have hnormal' : ∀ q ∈ next ++ rest, normalizeId q.id = q.id := by
            intro q hq
            rcases List.mem_append.1 hq with hq | hq
            · obtain ⟨s, -, rfl⟩ := List.mem_map.1 (List.mem_of_mem_filter hq)
              exact normalizeId_resolveSpecifier p.id s
            · exact hrest q hq
          obtain ⟨d, hd, hv⟩ := ih (c := met) hnormal' (by rw [List.length_append]; omega)
          obtain ⟨e, hbelow, hafter⟩ := visits_append hv
          refine ⟨d, ?_, .enter hmet hn (visits_of_filter (List.Subset.refl _) hbelow) hafter⟩
          rw [visit, if_neg hmet]
          simp only [definition?_of_backs hn]
          exact hd
        · have hnone : ∀ n, ¬ ns.Backs p.id n := not_exists.1 hbacks
          obtain ⟨d, hd, hv⟩ :=
            ih (c := { c with dangling := addNew c.dangling p.link }) hrest (by simp; omega)
          refine ⟨d, ?_, .missing hmet hnone hv⟩
          rw [visit, if_neg hmet]
          simp only [definition?_of_not_backs hns hnone]
          exact hd

theorem exists_expand (hns : ns.Sound) (ids : List String) :
    ∃ c, ns.expand ids = .ok c ∧ ns.Visits (ids.map .ofRequest) {} c := by
  have hnormal : ∀ p ∈ ids.map Pending.ofRequest, normalizeId p.id = p.id := by
    intro p hp
    obtain ⟨id, -, rfl⟩ := List.mem_map.1 hp
    exact normalizeId_normalizeId id
  have hremaining := ns.remaining_le []
  apply exists_visit hns hnormal
  rw [List.length_map, visitBound_eq]
  show _ + ns.remaining [] ≤ _
  omega

/-- A closure always ends, and is the one result of the recursive traversal. -/
theorem expand_traverses (hns : ns.Sound) (ids : List String) :
    ∃ c, ns.expand ids = .ok c ∧ ∀ d, ns.Visits (ids.map .ofRequest) {} d ↔ d = c := by
  obtain ⟨c, hc, hv⟩ := exists_expand hns ids
  refine ⟨c, hc, ?_⟩
  intro d
  constructor
  · intro hd
    exact hd.deterministic hv
  · rintro rfl
    exact hv

/-- Two modules that name each other, one of which names a module that is not there as well. -/
def circle : Namespace :=
  let file (name : String) (define : List String) : Node :=
    { name, parent := some 0, deps := { define }, modified := some 0 }
  let top : Node := { name := "src", children := .ofList [("a", 1), ("b", 2)] }
  ⟨.mk none [("app",
    .mk (some ⟨#[top, file "a" ["./b", "./gone", "./b"], file "b" ["app//a", "./b"]]⟩) [])]⟩

theorem expand_circle_traverses :
    circle.Sound ∧ circle.expand ["./app/b", "lib", "app/a"] = .ok ⟨["app/b", "app/a"],
        [⟨some "app/a", "./gone"⟩, ⟨none, "lib"⟩]⟩ ∧
      circle.Visits (["./app/b", "lib", "app/a"].map .ofRequest) {}
        ⟨["app/b", "app/a"], [⟨some "app/a", "./gone"⟩, ⟨none, "lib"⟩]⟩ := by
  have hsound : circle.Sound := by decide +kernel
  have hexpand : circle.expand ["./app/b", "lib", "app/a"] = .ok ⟨["app/b", "app/a"],
      [⟨some "app/a", "./gone"⟩, ⟨none, "lib"⟩]⟩ := by decide +kernel
  obtain ⟨c, hc, hv⟩ := expand_traverses hsound ["./app/b", "lib", "app/a"]
  rw [hexpand] at hc
  exact ⟨hsound, hexpand, (hv _).2 (Except.ok.inj hc)⟩

end Namespace

end ModuleAtlas
