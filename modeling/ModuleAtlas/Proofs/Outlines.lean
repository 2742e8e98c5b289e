import ModuleAtlas.Command.Run
import ModuleAtlas.Proofs.Positions
import ModuleAtlas.Proofs.Records

/-!
# Outlines

The drawing of a name space and its JSON value are made by two walks of their own.  The drawing has
no line for the top and stops before a line is drawn; the JSON value has the top and stops before
children are asked for.  Read back, they show the same positions, in the order of the walk along the
listed children, and a limit leaves out those that lie deeper.

Everything is shown from one listing, which each position puts together from its own entry and the
listings of its children, so that the limit, the indentation and the number of levels that the walks
may take play no part in it.

## Main definitions

* `OutlineEntry` — what an outline tells about a position: its level, its name and its definition.
* `OutlineRow.entry`, `Json.shown` — the entries that a line of the drawing and a JSON value tell.
* `isWithin` — the levels that a limit leaves.
* `Namespace.Tells` — an entry tells what is found at a path.
* `View.Outlined`, `Namespace.OutlinedBy` — all outlines of a position, and all that is printed of a
  name space, show one listing.

## Main results

* `View.exists_rows_children` — the lines below a position, from those of its children.
* `View.Outlined.of_children` — the listing of a position, from those of its children.
* `View.Stands.exists_outlined` — every position has a listing.
* `Namespace.outlines_agree` — **the drawing and the JSON value show the same positions, down to any
  depth.**
-/

namespace ModuleAtlas

/-- What an outline tells about a position of a name space. -/
structure OutlineEntry where
  /-- The number of steps from the top. -/
  level : Nat
  /-- The name. -/
  name : String
  /-- The specifiers in the definition of its module. -/
  define : List String
  deriving DecidableEq, Repr

/-- The entry that a line of the drawing tells.  From the second one on, each level is indented by
four characters. -/
def OutlineRow.entry (r : OutlineRow) : OutlineEntry := ⟨r.indent.length / 4 + 1, r.name, r.define⟩

/-- Whether a level is one of those that a limit leaves. -/
def isWithin (limit : Option Nat) (level : Nat) : Bool :=
  match limit with
  | some n => level ≤ n
  | none => true

namespace Json

mutual

/-- The entries that a JSON value tells at a level: its own, and those below it in depth-first
order. -/
def shown (level : Nat) : Json → List OutlineEntry
  | obj members =>
    ⟨level, ((members.lookup "name").bind text).getD "",
      ((members.lookup "defineDeps").bind (list text)).getD []⟩
      :: shownBelow (level + 1) members
  | _ => []

/-- The entries that the children among the members of an object tell. -/
def shownBelow (level : Nat) : List (String × Json) → List OutlineEntry
  | [] => []
  | (key, j) :: members => if key = "children" then shownIn level j else shownBelow level members

/-- The entries that the items of an array tell. -/
def shownIn (level : Nat) : Json → List OutlineEntry
  | arr items => shownOf level items
  | _ => []

/-- The entries that values tell, one after the other. -/
def shownOf (level : Nat) : List Json → List OutlineEntry
  | [] => []
  | j :: items => shown level j ++ shownOf level items

end

theorem shownOf_eq (level : Nat) (items : List Json) :
    shownOf level items = (items.map (shown level)).flatten := by
  induction items with
  | nil => rfl
  | cons j items ih => rw [shownOf, ih, List.map_cons, List.flatten_cons]

/-- A position in JSON tells its own entry, and then what its children tell. -/
theorem shown_position (level : Nat) (items : List Json) (d : Deps) (modified : Json)
    (name : String) :
    shown level
      (.obj [("children", .arr items), ("defineDeps", .strings d.define),
        ("lastModified", modified),
      ("name", .str name), ("requireDeps", .strings d.require)]) =
        ⟨level, name, d.define⟩ :: shownOf (level + 1) items := by
  have hdefine : (list text (.strings d.define)).getD [] = d.define := by
    rw [list_text_strings]; rfl
  simp only [shown, shownBelow, if_true, shownIn, List.lookup_cons]
  simpa using hdefine

end Json

/-! ### Levels -/

theorem isWithin_succ (limit : Option Nat) (depth : Nat) :
    isWithin limit (depth + 1) = !isBeyond limit depth := by
  cases limit with
  | none => rfl
  | some n => rw [isWithin, isBeyond, ← decide_not, decide_eq_decide]; omega

/-- Beyond a limit nothing is left. -/
theorem filter_isWithin_eq_nil {limit : Option Nat} {level : Nat} (h : isWithin limit level = false)
    {l : List OutlineEntry} (hl : ∀ e ∈ l, level ≤ e.level) :
    l.filter (fun e => isWithin limit e.level) = [] := by
  refine List.filter_eq_nil_iff.2 fun e he => ?_
  cases limit with
  | none => cases h
  | some n =>
    have hle := hl e he
    simp only [isWithin, decide_eq_false_iff_not, decide_eq_true_eq] at h ⊢
    omega

theorem mem_of_mem_markLast {α : Type} {l : List α} {a : α} {last : Bool}
    (h : (a, last) ∈ markLast l) : a ∈ l := by
  induction l with
  | nil => cases h
  | cons b l ih =>
    cases l with
    | nil =>
      obtain ⟨rfl, -⟩ := Prod.mk.inj (List.mem_singleton.1 h)
      exact List.mem_cons_self
    | cons c l =>
      rcases List.mem_cons.1 h with h | h
      · obtain ⟨rfl, -⟩ := Prod.mk.inj h
        exact List.mem_cons_self
      · exact List.mem_cons_of_mem _ (ih h)

theorem map_fst_markLast {α : Type} (l : List α) : (markLast l).map Prod.fst = l := by
  induction l with
  | nil => rfl
  | cons a l ih =>
    cases l with
    | nil => rfl
    | cons b l => exact congrArg (a :: ·) ih

/-! ### Outlines of a position -/

namespace Namespace

/-- An entry tells the level, the name and the definition of what is found at a path. -/
def Tells (ns : Namespace) (path : List String) (e : OutlineEntry) : Prop :=
  e.level = path.length ∧ ∃ v d, ns.view.descend path = .ok (some v) ∧ v.name = e.name ∧
    v.deps = .ok d ∧
    d.define = e.define

end Namespace

namespace View

variable {ns : Namespace} {m : AliasMap} {path : List String} {v : View}

/-- On as many levels as there may be, all outlines of a position show one listing. -/
structure Outlined (ns : Namespace) (path : List String) (v : View) (listing : List OutlineEntry) :
    Prop where
  /-- No entry lies above the position. -/
  level : ∀ e ∈ listing, path.length ≤ e.level
  /-- The listing is that of the walk. -/
  walk : ∀ levels, ns.size ≤ path.length + levels →
    ∃ paths, v.walk levels path = .ok (path :: paths) ∧
      List.Forall₂ ns.Tells (path :: paths) listing
  /-- The lines tell the entries that the limit leaves. -/
  rows : ∀ limit levels indent last depth, ns.size ≤ path.length + levels →
    path.length = depth + 1 → indent.length = 4 * depth →
      ∃ rows, v.rows limit levels indent last depth = .ok rows ∧
        rows.map OutlineRow.entry = listing.filter fun e => isWithin limit e.level
  /-- The JSON value tells them too, if the limit leaves the position itself. -/
  json : ∀ limit levels, ns.size ≤ path.length + levels → isWithin limit path.length = true →
    ∃ j, v.outlineJson limit levels path.length = .ok j ∧
      j.shown path.length = listing.filter fun e => isWithin limit e.level

section Children

variable {l : List View} {listing : View → List OutlineEntry}
  (h : ∀ w ∈ l, w.Outlined ns (path ++ [w.name]) (listing w))

theorem length_below (path : List String) (w : View) :
    (path ++ [w.name]).length = path.length + 1 := List.length_append

include h

/-- What is below a position lies deeper. -/
theorem level_of_mem_below : ∀ e ∈ (l.map listing).flatten, path.length + 1 ≤ e.level := by
  intro e he
  obtain ⟨_, hmem, he⟩ := List.mem_flatten.1 he
  obtain ⟨w, hw, rfl⟩ := List.mem_map.1 hmem
  exact length_below path w ▸ (h w hw).level e he

theorem exists_walk_children {levels : Nat} (hlevels : ns.size ≤ path.length + 1 + levels) :
    ∃ paths, (l.mapM fun w => walk levels (path ++ [w.name]) w) = .ok paths ∧
      List.Forall₂ ns.Tells paths.flatten (l.map listing).flatten := by
  have hstep : ∀ w ∈ l, ∃ paths, walk levels (path ++ [w.name]) w = .ok paths ∧
      List.Forall₂ ns.Tells paths (listing w) := by
    intro w hw
    obtain ⟨paths, hwalk, hshows⟩ := (h w hw).walk levels (by rw [length_below]; exact hlevels)
    exact ⟨_, hwalk, hshows⟩
  obtain ⟨paths, hpaths, hshows⟩ := exists_mapM_eq_ok hstep
  refine ⟨_, hpaths, List.rel_flatten ?_⟩
  exact List.forall₂_map_left_iff.2 (List.forall₂_map_right_iff.2 (List.forall₂_same.2 hshows))

/-- The lines below a position, from those of its children. -/
theorem exists_rows_children (limit : Option Nat) {levels : Nat} {indent : String}
    (hlevels : ns.size ≤ path.length + 1 + levels) (hindent : indent.length = 4 * path.length) :
    ∃ rows, ((markLast l).mapM fun c => c.1.rows limit levels indent c.2 path.length) = .ok rows ∧
      rows.flatten.map OutlineRow.entry = (l.map listing).flatten.filter fun e =>
        isWithin limit e.level := by
  have hstep : ∀ c ∈ markLast l, ∃ rows, c.1.rows limit levels indent c.2 path.length = .ok rows ∧
      rows.map OutlineRow.entry = (listing c.1).filter fun e => isWithin limit e.level := by
    intro c hc
    exact (h c.1 (mem_of_mem_markLast hc)).rows limit levels indent c.2 path.length
      (by rw [length_below]; exact hlevels)
      (length_below path c.1) hindent
  obtain ⟨rows, hrows, hentries⟩ := exists_mapM_eq_ok hstep
  have hlisting : l.map listing = (markLast l).map (listing ∘ Prod.fst) := by
    rw [← List.map_map, map_fst_markLast]
  refine ⟨_, hrows, ?_⟩
  rw [hlisting, List.map_flatten, List.filter_flatten, List.map_map, List.map_map]
  exact congrArg List.flatten (List.map_congr_left hentries)

/-- The JSON values below a position, from those of its children. -/
theorem exists_json_children {limit : Option Nat} {levels : Nat}
    (hlevels : ns.size ≤ path.length + 1 + levels)
    (hwithin : isWithin limit (path.length + 1) = true) :
    ∃ items, l.mapM (outlineJson limit levels (path.length + 1)) = .ok items ∧
      Json.shownOf (path.length + 1) items = (l.map listing).flatten.filter fun e =>
        isWithin limit e.level := by
  have hstep : ∀ w ∈ l, ∃ j, w.outlineJson limit levels (path.length + 1) = .ok j ∧
      j.shown (path.length + 1) = (listing w).filter fun e => isWithin limit e.level := by
    intro w hw
    have hjson := (h w hw).json limit levels
    rw [length_below] at hjson
    exact hjson hlevels hwithin
  obtain ⟨json, hjson, hshown⟩ := exists_mapM_eq_ok hstep
  refine ⟨_, hjson, ?_⟩
  rw [Json.shownOf_eq, List.filter_flatten, List.map_map, List.map_map]
  exact congrArg List.flatten (List.map_congr_left hshown)

/-- A position, whose children all have a listing, is shown by its own entry and theirs. -/
theorem Outlined.of_children (hsize : path.length < ns.size)
    (hv : ns.view.descend path = .ok (some v)) (hl : v.children = .ok l) {d : Deps}
    (hd : v.deps = .ok d) {modified : Option Millis} (hmodified : v.modified = .ok modified) :
    v.Outlined ns path (⟨path.length, v.name, d.define⟩ :: (l.map listing).flatten) := by
  have hlevel : ∀ e ∈ (⟨path.length, v.name, d.define⟩ : OutlineEntry) :: (l.map listing).flatten,
      path.length ≤ e.level := by
    intro e he
    rcases List.mem_cons.1 he with rfl | he
    · exact Nat.le_refl _
    · exact Nat.le_of_succ_le (level_of_mem_below h e he)
  have hpos : ∀ {levels}, ns.size ≤ path.length + levels → ∃ k, levels = k + 1 ∧
      ns.size ≤ path.length + 1 + k :=
    fun {levels} hlevels => ⟨levels - 1, by omega, by omega⟩
  refine ⟨hlevel, ?_, ?_, ?_⟩
  · intro levels hlevels
    obtain ⟨levels, rfl, hbelow⟩ := hpos hlevels
    obtain ⟨paths, hpaths, hshows⟩ := exists_walk_children h hbelow
    have hwalk : v.walk (levels + 1) path = .ok (path :: paths.flatten) := by
      simp only [View.walk, hl, hpaths]
      rfl
    exact ⟨paths.flatten, hwalk, .cons ⟨rfl, v, d, hv, rfl, hd, rfl⟩ hshows⟩
  · intro limit levels indent last depth hlevels hdepth hindent
    obtain ⟨levels, rfl, hbelow⟩ := hpos hlevels
    by_cases hbeyond : isBeyond limit depth = true
    · have hwithin : isWithin limit path.length = false := by
        rw [hdepth, isWithin_succ, hbeyond]; rfl
      exact ⟨[], by rw [View.rows, if_pos hbeyond], (filter_isWithin_eq_nil hwithin hlevel).symm⟩
    · have hwithin : isWithin limit path.length = true := by
        rw [hdepth, isWithin_succ]; simpa using hbeyond
      have hinner : (indent ++ if last then "    " else "│   ").length = 4 * path.length := by
        have hstep : (if last then "    " else "│   ").length = 4 := by cases last <;> rfl
        rw [String.length_append, hstep, hindent, hdepth]
        omega
      obtain ⟨rows, hrows, hentries⟩ := exists_rows_children h limit hbelow hinner
      rw [hdepth] at hrows
      refine ⟨⟨indent, last, v.name, d.define⟩ :: rows.flatten, ?_, ?_⟩
      · rw [View.rows, if_neg hbeyond]
        simp only [hd, hl, hrows, bind, Except.bind]
        rfl
      · have hlevel : indent.length / 4 + 1 = path.length := by omega
        rw [List.map_cons, hentries, List.filter_cons_of_pos (by exact hwithin),
          OutlineRow.entry, hlevel]
  · intro limit levels hlevels hwithin
    obtain ⟨levels, rfl, hbelow⟩ := hpos hlevels
    by_cases hbeyond : isBeyond limit path.length = true
    · have hnone : isWithin limit (path.length + 1) = false := by rw [isWithin_succ, hbeyond]; rfl
      refine ⟨_, by
        simp only [View.outlineJson, if_pos hbeyond, hd, hmodified, bind, Except.bind]; rfl, ?_⟩
      rw [Json.shown_position, List.filter_cons_of_pos (by exact hwithin),
        filter_isWithin_eq_nil hnone (level_of_mem_below h)]
      rfl
    · have hsome : isWithin limit (path.length + 1) = true := by
        rw [isWithin_succ]; simpa using hbeyond
      obtain ⟨items, hitems, hentries⟩ := exists_json_children h hbelow hsome
      refine ⟨_, by simp only [View.outlineJson, if_neg hbeyond, hl, hitems, hd, hmodified, bind,
        Except.bind]; rfl, ?_⟩
      rw [Json.shown_position, hentries, List.filter_cons_of_pos (by exact hwithin)]

end Children

/-- Every position has a listing. -/
theorem Stands.exists_outlined (hns : ns.Holds m) (hm : ∀ top t, m top = some t → t.Linked)
    {room : Nat} :
    ∀ {path : List String} {v : View}, v.Stands ns m path → ns.view.descend path = .ok (some v) →
      ns.size ≤ path.length + room → ∃ listing, v.Outlined ns path listing := by
  -- each level takes one off the room that is left, and no path is as long as the name space is
  -- large
  induction room with
  | zero =>
    intro path v hv _ hsize
    exact absurd (hv.length_lt_size hns hm) (by omega)
  | succ room ih =>
    intro path v hv hdescend hsize
    obtain ⟨names, l, hlists, hstands⟩ := hv.exists_lists hns hm
    have hstep : ∀ w ∈ l, ∃ listing, w.Outlined ns (path ++ [w.name]) listing := by
      intro w hw
      have hbelow : ns.view.descend (path ++ [w.name]) = .ok (some w) := by
        rw [descend_concat, hdescend]
        exact hlists.child_of_mem hw
      exact ih (hstands w hw) hbelow (by rw [length_below]; omega)
    choose! listing hlisting using hstep
    obtain ⟨n, hn⟩ : ∃ n, v.node? = .ok n := by
      cases hp : v.place with
      | none => exact ⟨none, by rw [node?, hp]⟩
      | some p =>
        obtain ⟨n, hn⟩ := hv.exists_node hm hp
        exact ⟨some n, by simp [node?, hp, Place.node, Tree.node, hn, Except.map]⟩
    exact ⟨_, .of_children hlisting (hv.length_lt_size hns hm) hdescend hlists.children
      (by rw [deps, hn]; rfl) (by rw [modified, hn]; rfl)⟩

end View

namespace Namespace

variable {ns : Namespace}

/-- Below the top of a name space with aliases there are names. -/
theorem exists_childNames_view (hne : ns.aliases ≠ []) :
    ∃ names, ns.view.childNames = .ok names ∧ names.toList.isEmpty = false := by
  refine ⟨_, rfl, ?_⟩
  rw [List.isEmpty_eq_false_iff]
  intro hnil
  have hchildren : ns.root.children = [] := by
    refine List.eq_nil_iff_forall_not_mem.2 fun p hp => ?_
    have hmem :=
      (SortedSet.mem_ofList_iff (a := p.1)).2
        (List.mem_append_left [] (List.mem_map_of_mem (f := Prod.fst) hp))
    exact absurd (hnil ▸ hmem) List.not_mem_nil
  refine hne ?_
  rw [aliases, bindings]
  obtain ⟨⟨mount, children⟩⟩ := ns
  obtain rfl : children = [] := hchildren
  rfl

/-- What is printed of a name space with aliases: the lines of the drawing, or the JSON value. -/
theorem inspected_outline (hne : ns.aliases ≠ []) {limit : Option Nat} {rows : List OutlineRow}
    (hrows : ns.rows limit = .ok rows) {j : Json} (hjson : ns.outlineJson limit = .ok j) :
    Request.inspected ns none false limit = .ok (rows.map OutlineRow.text) ∧
      Request.inspected ns none true limit = .ok [j.pretty] := by
  obtain ⟨names, hnames, hsome⟩ := exists_childNames_view hne
  constructor
  · simp only [Request.inspected, hnames, hsome, hrows]
    rfl
  · simp only [Request.inspected, hjson]
    rfl

/-- What is printed of a name space shows one listing. -/
structure OutlinedBy (ns : Namespace) (listing : List OutlineEntry) : Prop where
  /-- The listing tells what is found at the paths of the walk below the top, in their order. -/
  walk : ∃ paths, ns.walk = .ok ([] :: paths) ∧ List.Forall₂ ns.Tells paths listing
  /-- With any limit or none, lines and a JSON value are printed.  The lines, and the JSON value
  below its top, tell the entries of the listing at most so many steps from the top. -/
  printed : ∀ limit, ∃ (rows : List OutlineRow) (j : Json),
    Request.inspected ns none false limit = .ok (rows.map OutlineRow.text) ∧
    Request.inspected ns none true limit = .ok [j.pretty] ∧
    rows.map OutlineRow.entry = listing.filter (fun e => isWithin limit e.level) ∧
    (j.shown 0).tail = listing.filter (fun e => isWithin limit e.level)

/-- **The drawing and the JSON value of a name space show the same positions, down to any
depth.** -/
theorem outlines_agree {calls : List Call} (hsound : (run calls).Sound)
    (hne : (run calls).aliases ≠ []) : ∃ listing, (run calls).OutlinedBy listing := by
  have hns := holds_run calls
  have hm : ∀ top t, mounted calls top = some t → t.Linked :=
    fun top t ht => hsound.linked (hns.mem_bindings_iff.2 ht)
  obtain ⟨names, l, hlists, hstands⟩ := (View.stands_view hns).exists_lists hns hm
  have hstep : ∀ w ∈ l, ∃ listing, w.Outlined (run calls) [w.name] listing := fun w hw =>
    View.Stands.exists_outlined hns hm (hstands w hw)
      (View.descend_cons_of_child (hlists.child_of_mem hw) [])
      (Nat.le_add_left _ _)
  choose! listing hlisting using hstep
  have htop : (run calls).view.Outlined (run calls) [] (⟨0, "", []⟩ :: (l.map listing).flatten) :=
    .of_children hlisting ((View.stands_view hns).length_lt_size hns hm) rfl hlists.children rfl rfl
  obtain ⟨paths, hwalk, hshows⟩ := htop.walk ((run calls).size + 1) (by omega)
  refine ⟨(l.map listing).flatten, ⟨paths, hwalk, (List.forall₂_cons.1 hshows).2⟩, fun limit => ?_⟩
  have hroom : (run calls).size ≤ ([] : List String).length + 1 + ((run calls).size + 1) := by omega
  obtain ⟨rows, hmapM, hentries⟩ :=
    View.exists_rows_children hlisting limit hroom (show "".length = 4 * 0 from rfl)
  have hrows : (run calls).rows limit = .ok rows.flatten := by
    simp only [Namespace.rows, hlists.children, bind, Except.bind]
    rw [show (markLast l).mapM (fun c => c.1.rows limit ((run calls).size + 1) "" c.2 0) =
      .ok rows from hmapM]
    rfl
  obtain ⟨j, hjson, hshown⟩ :=
    htop.json limit ((run calls).size + 2) (by omega) (by cases limit <;> rfl)
  obtain ⟨hlines, hvalue⟩ := inspected_outline hne hrows hjson
  refine ⟨rows.flatten, j, hlines, hvalue, hentries, ?_⟩
  rw [show j.shown 0 = _ from hshown, List.filter_cons_of_pos (by cases limit <;> rfl),
    List.tail_cons]

/-- Two aliases, one of them below a path of the other one's tree. -/
theorem outlines_nestedCalls : (run nestedCalls).Sound ∧ (run nestedCalls).aliases ≠ [] ∧
    (∃ listing, (run nestedCalls).OutlinedBy listing) ∧
      Request.inspected (run nestedCalls) none false (some 3)
        = .ok ["└── p", "    └── x", "        ├── y", "        └── z"] := by
  have hsound : (run nestedCalls).Sound := by decide +kernel
  have hne : (run nestedCalls).aliases ≠ [] := by decide +kernel
  exact ⟨hsound, hne, outlines_agree hsound hne, by decide +kernel⟩

end Namespace

end ModuleAtlas
