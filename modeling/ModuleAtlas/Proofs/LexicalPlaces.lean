import ModuleAtlas.Proofs.NormalPaths

/-!
# Lexical places

By its spelling alone a path leads from every working directory to a place, as if all its names were
directories: `..` takes back the last name and vanishes at the top.  Normal forms are canonical for
this: a path and its normal form lead to the same places, and two paths do so only if they have one
normal form.

## Main definitions

* `Component.move`, `Path.placeFrom` — the place to which a component, and a path, leads.
* `Path.SamePlace` — two paths lead to the same place from wherever they are followed.
* `Path.Canonical` — the shape of normal forms.
* `Path.steps` — the components of a path after its start.

## Main results

* `Path.steps_join` — joining paths puts their steps one after the other.
* `Path.placeFrom_normal`, `Path.Canonical.components_eq` — normal forms lead where the paths do,
  and are told by that.
* `Path.normal_canonical` — **normal forms are canonical, and joining may take them first.**
-/

namespace ModuleAtlas

/-! ### Places -/

/-- Where a component leads from a place. -/
def Component.move (place : List String) : Component → List String
  | .root => []
  | .current => place
  | .parent => place.dropLast
  | .name s => place ++ [s]

/-- Where a path leads by its spelling, if it is followed from the place `start`. -/
def Path.placeFrom (p : Path) (start : List String) : List String :=
  p.components.foldl Component.move start

/-- By their spelling, two paths lead to the same place from wherever they are followed. -/
def Path.SamePlace (p q : Path) : Prop := ∀ start, p.placeFrom start = q.placeFrom start

/-- Settling a component leads on by this component. -/
theorem foldl_move_settle (start : List String) (place : List Component) (c : Component) :
    (settle place c).reverse.foldl Component.move start
      = Component.move (place.reverse.foldl Component.move start) c := by
  have hcons : ∀ (d : Component) (l : List Component), (d :: l).reverse.foldl Component.move start
      = Component.move (l.reverse.foldl Component.move start) d := by
    intro d l
    rw [List.reverse_cons, List.foldl_append, List.foldl_cons, List.foldl_nil]
  cases c with
  | root => rw [settle_root, hcons]
  | current =>
    rw [settle_current]
    rfl
  | name s => rw [settle_name, hcons]
  | parent =>
    cases place with
    | nil => rfl
    | cons d place =>
      cases d with
      | root =>
        -- there is nothing above the top
        rw [settle_root_parent, hcons]
        rfl
      | current => exact hcons .parent _
      | parent => exact hcons .parent _
      | name s =>
        rw [settle_name_parent, hcons]
        exact List.dropLast_concat.symm

theorem foldl_move_foldl_settle (start : List String) (l : List Component) :
    ∀ place : List Component,
    (l.foldl settle place).reverse.foldl Component.move start
      = l.foldl Component.move (place.reverse.foldl Component.move start) := by
  induction l with
  | nil => intro place; rfl
  | cons c l ih =>
    intro place
    rw [List.foldl_cons, List.foldl_cons, ih, foldl_move_settle]

namespace Path

/-- **A path and its normal form lead to the same place.** -/
theorem placeFrom_normal (p : Path) (start : List String) :
    p.normal.placeFrom start = p.placeFrom start := by
  rw [placeFrom, components_normal, normalComponents, foldl_move_foldl_settle]
  rfl

/-! ### The shape of normal forms -/

/-- The components are steps up and then names in a relative path, and names below the root in an
absolute one. -/
def Canonical (p : Path) : Prop :=
  ∃ (ups : Nat) (names : List String), (∀ s ∈ names, s ≠ "") ∧
    ((p.isAbsolute = false ∧ p.components = List.replicate ups .parent ++ names.map .name) ∨
      (p.isAbsolute = true ∧ p.components = .root :: names.map .name))

end Path

/-- The shape of a settled place. -/
theorem exists_names_of_settled : ∀ {place : List Component}, Settled place →
    ∃ (ups : Nat) (names : List String),
    place.reverse = List.replicate ups .parent ++ names.map .name ∨
      place.reverse = .root :: names.map .name := by
  intro place
  induction place with
  | nil => intro _; exact ⟨0, [], .inl rfl⟩
  | cons c place ih =>
    intro h
    cases c with
    | root =>
      obtain rfl : place = [] := h
      exact ⟨0, [], .inr rfl⟩
    | current => exact h.elim
    | parent =>
      -- all that is left are steps up
      have hall : ∀ d ∈ (Component.parent :: place).reverse, d = .parent := by
        intro d hd
        rcases List.mem_cons.1 (List.mem_reverse.1 hd) with rfl | hd
        · rfl
        · exact h d hd
      exact ⟨_, [], .inl (by rw [List.eq_replicate_of_mem hall, List.map_nil, List.append_nil])⟩
    | name s =>
      obtain ⟨ups, names, hnames⟩ := ih h
      refine ⟨ups, names ++ [s], ?_⟩
      rw [List.reverse_cons, List.map_append, List.map_singleton, ← List.append_assoc,
        ← List.cons_append]
      exact hnames.imp (fun h => by rw [h]) (fun h => by rw [h])

namespace Path

/-! ### The start and the steps of a path -/

/-- The components of a path after its start. -/
def steps (p : Path) : List Component := p.pieces.filterMap pieceComponent?

/-- The pieces of an absolute path start with an empty one. -/
theorem pieces_of_isAbsolute {p : Path} (h : p.isAbsolute = true) : ∃ rest, rest ≠ [] ∧
    p.pieces = "" :: rest := by
  obtain ⟨l, hl⟩ := isAbsolute_iff.1 h
  refine ⟨(Text.splitChars '/' l).map String.ofList, ?_, ?_⟩
  · exact mt List.map_eq_nil_iff.1 (Text.splitChars_ne_nil '/' l)
  · rw [pieces, Text.splitAt, hl, Text.splitChars_cons_self]
    rfl

/-- Those of a relative path start with one that is not empty, if there are any others. -/
theorem pieces_of_relative {p : Path} (h : p.isAbsolute = false) : ∃ s rest, p.pieces = s :: rest ∧
    (s = "" → rest = []) := by
  cases hl : p.text.toList with
  | nil => exact ⟨"", [], by rw [pieces, Text.splitAt, hl]; rfl, fun _ => rfl⟩
  | cons c l =>
    have hc : c ≠ '/' := by
      rintro rfl
      rw [isAbsolute_iff.2 ⟨l, hl⟩] at h
      cases h
    rw [pieces, Text.splitAt, hl, Text.splitChars, if_neg hc]
    cases Text.splitChars '/' l with
    | nil => exact ⟨_, _, rfl, fun _ => rfl⟩
    | cons piece rest => exact ⟨_, _, rfl, fun h => absurd h (by simp)⟩

/-- A path starts at the root, at a dot that adds nothing, or right away. -/
theorem components_cases (p : Path) : (p.isAbsolute = true ∧ p.components = .root :: p.steps) ∨
    (p.isAbsolute = false ∧ (p.components = p.steps ∨ p.components = .current :: p.steps)) := by
  cases h : p.isAbsolute with
  | true =>
    obtain ⟨rest, hrest, hpieces⟩ := pieces_of_isAbsolute h
    refine .inl ⟨rfl, ?_⟩
    rw [components, steps, hpieces]
    simp [headComponents, hrest, pieceComponent?]
  | false =>
    obtain ⟨s, rest, hpieces, hempty⟩ := pieces_of_relative h
    refine .inr ⟨rfl, ?_⟩
    rw [components, steps, hpieces]
    show headComponents s _ ++ _ = _ ∨ headComponents s _ ++ _ = _
    rw [headComponents, List.filterMap_cons]
    by_cases hs : s = ""
    · rw [hempty hs, hs]
      simp [pieceComponent?]
    rw [if_neg hs]
    by_cases hdot : s = "."
    · rw [if_pos hdot, hdot]
      exact .inr (by simp [pieceComponent?])
    · rw [if_neg hdot]
      cases pieceComponent? s <;> exact .inl rfl

/-- The component at which an absolute path starts. -/
def origin (p : Path) : List Component := if p.isAbsolute then [.root] else []

theorem foldl_settle_components (p : Path) :
    p.components.foldl settle [] = p.steps.foldl settle p.origin := by
  rcases p.components_cases with ⟨h, hp⟩ | ⟨h, hp | hp⟩
  · rw [hp, origin, if_pos h]
    rfl
  · rw [hp, origin, if_neg (by simp [h])]
  · rw [hp, origin, if_neg (by simp [h]), List.foldl_cons, settle_current]

/-- Whether a path is absolute is seen from its components. -/
theorem isAbsolute_eq_true_iff (p : Path) : p.isAbsolute = true ↔
    Component.root ∈ p.components := by
  have hsteps : Component.root ∉ p.steps := by
    intro h
    obtain ⟨s, -, hs⟩ := List.mem_filterMap.1 h
    rw [pieceComponent?] at hs
    split at hs
    · cases hs
    · split at hs <;> cases hs
  rcases p.components_cases with ⟨h, hp⟩ | ⟨h, hp | hp⟩ <;> rw [h, hp] <;> simp [hsteps]

/-- Settling keeps the root where it is. -/
theorem root_mem_foldl_settle {l : List Component} : ∀ {place : List Component},
    Component.root ∈ l.foldl settle place ↔ Component.root ∈ place ∨ Component.root ∈ l := by
  have hsettle : ∀ (place : List Component) (c : Component),
      Component.root ∈ settle place c ↔ Component.root ∈ place ∨ Component.root = c := by
    intro place c
    unfold settle
    split <;> simp_all [or_comm]
  induction l with
  | nil => simp
  | cons c l ih =>
    intro place
    rw [List.foldl_cons, ih, hsettle, List.mem_cons, or_assoc]

/-- The normal form of a path is absolute if the path is. -/
theorem isAbsolute_normal (p : Path) : p.normal.isAbsolute = p.isAbsolute := by
  rw [Bool.eq_iff_iff, isAbsolute_eq_true_iff, isAbsolute_eq_true_iff, components_normal,
    normalComponents, List.mem_reverse, root_mem_foldl_settle]
  simp

theorem canonical_normal (p : Path) : p.normal.Canonical := by
  obtain ⟨hsettled, steps, hsteps, hspelt⟩ := settled_components p
  obtain ⟨ups, names, hnames⟩ := exists_names_of_settled hsettled
  have hcomponents := components_normal p
  have hnonempty : ∀ s ∈ names, s ≠ "" := by
    intro s hs
    have hmem : Component.name s ∈ normalComponents p.components := by
      rcases hnames with h | h <;> rw [normalComponents, h] <;> simp [hs]
    have hstep : (Component.name s).Step := by
      rcases hspelt with h | h
      · exact hsteps _ (h ▸ hmem)
      · rw [h] at hmem
        exact hsteps _ ((List.mem_cons.1 hmem).resolve_left (by simp))
    exact hstep.ne_empty
  refine ⟨ups, names, hnonempty, ?_⟩
  rw [hcomponents, normalComponents]
  rcases hnames with h | h
  · refine .inl ⟨?_, h⟩
    rw [Bool.eq_false_iff, ne_eq, isAbsolute_eq_true_iff, hcomponents, normalComponents, h]
    simp [List.mem_replicate]
  · refine .inr ⟨?_, h⟩
    rw [isAbsolute_eq_true_iff, hcomponents, normalComponents, h]
    exact List.mem_cons_self

/-! ### Places tell normal forms -/

theorem foldl_move_names (names : List String) : ∀ place : List String,
    (names.map Component.name).foldl Component.move place = place ++ names := by
  induction names with
  | nil => intro place; exact (List.append_nil place).symm
  | cons s names ih =>
    intro place
    rw [List.map_cons, List.foldl_cons, ih, Component.move, List.append_assoc]
    rfl

/-- Steps up lead up. -/
theorem foldl_move_ups (ups : Nat) :
    ∀ k : Nat, (List.replicate ups Component.parent).foldl Component.move
    (List.replicate (ups + k) "") = List.replicate k "" := by
  induction ups with
  | zero => intro k; rw [Nat.zero_add]; rfl
  | succ ups ih =>
    intro k
    have hup : Component.move (List.replicate (ups + 1 + k) "") .parent =
        List.replicate (ups + k) "" := by
      rw [Component.move, List.dropLast_replicate]
      congr 1
      omega
    rw [List.replicate_succ, List.foldl_cons, hup, ih]

/-- **Canonical paths that lead to the same places have the same components.** -/
theorem Canonical.components_eq {p q : Path} (hp : p.Canonical) (hq : q.Canonical)
    (h : p.SamePlace q) : p.components = q.components := by
  obtain ⟨n, xs, hxs, hp⟩ := hp
  obtain ⟨m, ys, hys, hq⟩ := hq
  have hcount : ∀ {names : List String}, (∀ s ∈ names, s ≠ "") → names.count "" = 0 := fun h =>
    List.count_eq_zero.2 fun hmem => h _ hmem rfl
  -- both are followed from a place far below, all of whose names are empty
  have hplace := h (List.replicate (n + m + 1) "")
  rw [placeFrom, placeFrom] at hplace
  have hup : ∀ ups rest : Nat, n + m + 1 = ups + rest →
      (List.replicate ups Component.parent).foldl Component.move
      (List.replicate (n + m + 1) "") = List.replicate rest "" := by
    intro ups rest hrest
    rw [hrest, foldl_move_ups]
  have hempty := congrArg (List.count "") hplace
  rcases hp with ⟨-, hp⟩ | ⟨-, hp⟩ <;> rcases hq with ⟨-, hq⟩ | ⟨-, hq⟩
  · rw [hp, hq, List.foldl_append, List.foldl_append, foldl_move_names, foldl_move_names,
      hup n (m + 1) (by omega), hup m (n + 1) (by omega)] at hplace hempty
    rw [List.count_append, List.count_append, hcount hxs, hcount hys, List.count_replicate_self,
      List.count_replicate_self] at hempty
    obtain rfl : n = m := by omega
    rw [hp, hq, List.append_cancel_left hplace]
  · rw [hp, hq, List.foldl_append, List.foldl_cons, foldl_move_names, foldl_move_names,
      hup n (m + 1) (by omega)] at hempty
    rw [Component.move, List.nil_append, hcount hys, List.count_append, hcount hxs,
      List.count_replicate_self] at hempty
    omega
  · rw [hp, hq, List.foldl_append, List.foldl_cons, foldl_move_names, foldl_move_names,
      hup m (n + 1) (by omega)] at hempty
    rw [Component.move, List.nil_append, hcount hxs, List.count_append, hcount hys,
      List.count_replicate_self] at hempty
    omega
  · rw [hp, hq, List.foldl_cons, List.foldl_cons, foldl_move_names, foldl_move_names] at hplace
    rw [hp, hq, List.append_cancel_left hplace]

/-- Paths have one normal form exactly if they lead to the same places. -/
theorem samePlace_iff {p q : Path} : p.SamePlace q ↔ p.normal = q.normal := by
  constructor
  · intro h
    have hnormal : p.normal.SamePlace q.normal := fun start => by
      rw [placeFrom_normal, placeFrom_normal, h]
    have hcomponents := (canonical_normal p).components_eq (canonical_normal q) hnormal
    rw [components_normal, components_normal] at hcomponents
    rw [normal, normal, hcomponents]
  · intro h start
    rw [← placeFrom_normal, h, placeFrom_normal]

/-! ### Joined paths -/

theorem isAbsolute_append {s : String} (hs : s ≠ "") (t : String) :
    (Path.mk (s ++ t)).isAbsolute = (Path.mk s).isAbsolute := by
  rw [Bool.eq_iff_iff, isAbsolute_iff, isAbsolute_iff, String.toList_append]
  cases hlist : s.toList with
  | nil => exact absurd (String.toList_inj.1 hlist) hs
  | cons c l => simp

theorem steps_append (s t : String) :
    (Path.mk (s ++ "/" ++ t)).steps = (Path.mk s).steps ++ (Path.mk t).steps := by
  have hpieces := Text.splitAt_append '/' s t
  rw [steps, pieces, show s ++ "/" ++ t = s ++ String.singleton '/' ++ t from rfl, hpieces,
    List.filterMap_append]
  rfl

/-- A path without text has no steps. -/
theorem steps_empty : (Path.mk "").steps = [] := by with_unfolding_all decide

/-- **Joining a relative path puts its steps behind the others.** -/
theorem steps_join (p : Path) {q : Path} (hq : q.isAbsolute = false) :
    (p.join q).steps = p.steps ++ q.steps ∧ (p.join q).isAbsolute = p.isAbsolute := by
  rw [join, if_neg (by simp [hq])]
  obtain ⟨s⟩ := p
  by_cases hs : s = ""
  · subst hs
    rw [if_pos (by simp), String.empty_append, steps_empty]
    exact ⟨rfl, hq.trans (by decide)⟩
  by_cases hslash : s.toList.getLast? = some '/'
  · -- the slash at the end of the path is the one between the two
    obtain ⟨l, hl⟩ : ∃ l, s.toList = l ++ ['/'] := List.getLast?_eq_some_iff.1 hslash
    have htext : s = String.ofList l ++ "/" := by
      apply String.toList_inj.1
      rw [hl, String.toList_append, String.toList_ofList]
      rfl
    have hsteps : (Path.mk s).steps = (Path.mk (String.ofList l)).steps := by
      rw [htext, ← String.append_empty (s := String.ofList l ++ "/"), steps_append, steps_empty,
        List.append_nil]
    rw [if_pos (by simp [hslash]), isAbsolute_append hs, hsteps, ← steps_append, ← htext]
    exact ⟨rfl, rfl⟩
  · rw [if_neg (by simp [hs, hslash]), steps_append, String.append_assoc, isAbsolute_append hs]
    exact ⟨rfl, rfl⟩

/-- The normal form of joined paths. -/
theorem normal_join (p q : Path) : (p.join q).normal = (p.normal.join q).normal := by
  cases hq : q.isAbsolute with
  | true => rw [join_of_isAbsolute hq, join_of_isAbsolute hq]
  | false =>
    have hsettle : ∀ r : Path, (r.join q).components.foldl settle []
        = q.steps.foldl settle (r.components.foldl settle []) := by
      intro r
      obtain ⟨hsteps, habsolute⟩ := steps_join r hq
      rw [foldl_settle_components, foldl_settle_components, hsteps, List.foldl_append, origin,
        origin, habsolute]
    have hfixed : p.normal.components.foldl settle [] = p.components.foldl settle [] := by
      rw [components_normal, normalComponents, foldl_settle_reverse (settled_components p).1]
    rw [normal, normal, normalComponents, normalComponents, hsettle, hsettle, hfixed]

/-- **Normal forms are canonical.**  They have the shape of canonical paths, are absolute if the
paths are, and lead to the same places; paths have one normal form exactly if they lead to the same
places, so normal forms are their own; and a path is joined to another one by way of its normal
form. -/
theorem normal_canonical (p : Path) : p.normal.Canonical ∧ p.normal.isAbsolute = p.isAbsolute ∧
    p.normal.SamePlace p ∧ p.normal.normal = p.normal ∧
      (∀ q : Path, p.SamePlace q ↔ p.normal = q.normal) ∧
      ∀ q : Path, (p.join q).normal = (p.normal.join q).normal :=
  ⟨p.canonical_normal, p.isAbsolute_normal, p.placeFrom_normal, p.normal_normal, fun _ =>
    samePlace_iff, p.normal_join⟩

end Path

end ModuleAtlas
