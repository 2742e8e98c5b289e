import ModuleAtlas.Proofs.PathLengths

/-!
# Direct ways

Without links, the names of a path lead to a directory by way of directories only: each `..` goes to
the directory above, and each name enters a directory.  Settling cuts off detours, so what remains
of the way still leads through directories, and to the same one.  Hence the normal form of a path to
a directory leads to this directory, unless it is empty and leads nowhere.

## Main definitions

* `Entry.Passes` — components lead through directories.

## Main results

* `Entry.Passes.foldl_settle` — **detours can be cut off.**
* `Leads.passes`, `Entry.Passes.leads` — where there are no links, names lead to a directory by
  passing directories.
* `Disk.find_normal` — **the normal form of a path to a directory leads there, unless it is empty.**
-/

namespace ModuleAtlas

open Disk (start names linkLimit)

/-! ### Ways through directories -/

namespace Entry

/-- Components lead through directories, and to one; names in them are those of entries. -/
inductive Passes (root : Entry) : List String → List Component → Prop where
  /-- The place is a directory. -/
  | here {place : List String} (hdir : root.isDirAt place = true) : Passes root place []
  /-- A component leads on from a directory. -/
  | on {place : List String} {c : Component} {l : List Component} (hdir : root.isDirAt place = true)
      (hname : ∀ s, c = .name s → IsEntryName s) (h : Passes root (c.move place) l) :
      Passes root place (c :: l)

variable {root : Entry} {place : List String} {l k : List Component}

theorem passes_cons_iff {c : Component} : root.Passes place (c :: l) ↔
    root.isDirAt place = true ∧ (∀ s, c = .name s → IsEntryName s) ∧ root.Passes (c.move place) l :=
  ⟨fun | .on hdir hname h => ⟨hdir, hname, h⟩, fun ⟨hdir, hname, h⟩ => .on hdir hname h⟩

theorem Passes.isDirAt (h : root.Passes place l) : root.isDirAt place = true := by
  cases h with
  | here hdir => exact hdir
  | on hdir _ _ => exact hdir

theorem passes_append_iff : ∀ {place : List String},
    root.Passes place (l ++ k) ↔ root.Passes place l ∧
      root.Passes (l.foldl Component.move place) k := by
  induction l with
  | nil => exact fun {place} => ⟨fun h => ⟨.here h.isDirAt, h⟩, And.right⟩
  | cons c l ih =>
    intro place
    rw [List.cons_append, passes_cons_iff, passes_cons_iff, ih, List.foldl_cons]
    simp only [and_assoc]

/-- What is left of a way after one more component: it ends with the component, or before the name
that is taken back. -/
theorem Passes.settle {stack : List Component} {c : Component} (h : root.Passes place stack.reverse)
    (hc : root.Passes (stack.reverse.foldl Component.move place) [c]) :
    root.Passes place (ModuleAtlas.settle stack c).reverse := by
  have hcons : root.Passes place (c :: stack).reverse := by
    rw [List.reverse_cons]
    exact passes_append_iff.2 ⟨h, hc⟩
  unfold ModuleAtlas.settle
  split
  · exact h
  · rw [List.reverse_cons] at h
    exact (passes_append_iff.1 h).1
  · exact h
  · exact hcons
  · exact hcons

/-- **Detours can be cut off.** -/
theorem Passes.foldl_settle : ∀ (stack : List Component), root.Passes place stack.reverse →
    root.Passes (stack.reverse.foldl Component.move place) l →
      root.Passes place (l.foldl ModuleAtlas.settle stack).reverse := by
  induction l with
  | nil => intro stack h _; exact h
  | cons c l ih =>
    intro stack h hl
    obtain ⟨hc, hrest⟩ := passes_append_iff.1 (show root.Passes _ ([c] ++ l) from hl)
    refine ih _ (h.settle hc) ?_
    rwa [foldl_move_settle]

/-- The way of the normal form. -/
theorem Passes.normalComponents (h : root.Passes place l) :
    root.Passes place (normalComponents l) :=
  Passes.foldl_settle [] (.here h.isDirAt) h

end Entry

/-! ### Names of a path -/

section Start

variable {root : Entry} (p : Path) (cwd : List String)

/-- The start of a path adds nothing to where following it starts. -/
theorem placeFrom_start :
    p.placeFrom (start cwd p.text) = p.steps.foldl Component.move (start cwd p.text) := by
  rw [Path.placeFrom]
  rcases p.components_cases with ⟨h, hp⟩ | ⟨-, hp | hp⟩
  · rw [hp, List.foldl_cons, start, if_pos h]
    rfl
  · rw [hp]
  · rw [hp]
    rfl

theorem passes_components_iff :
    root.Passes (start cwd p.text) p.components ↔ root.Passes (start cwd p.text) p.steps := by
  rcases p.components_cases with ⟨h, hp⟩ | ⟨-, hp | hp⟩
  · rw [hp, start, if_pos h]
    exact ⟨fun h => (Entry.passes_cons_iff.1 h).2.2, fun h => .on h.isDirAt (by simp) h⟩
  · rw [hp]
  · rw [hp]
    exact ⟨fun h => (Entry.passes_cons_iff.1 h).2.2, fun h => .on h.isDirAt (by simp) h⟩

theorem notMem_names (text : String) : "" ∉ names text := by
  rw [names, List.mem_append, not_or]
  refine ⟨by simp, ?_⟩
  split <;> simp

/-- The names of a path denote its steps. -/
theorem filterMap_names : (names p.text).filterMap Path.pieceComponent? = p.steps := by
  have hdot :
      (if (Text.splitAt '/' p.text).getLast? = some "" then ["."] else []).filterMap
        Path.pieceComponent? = [] := by
    split <;> decide
  have hfilter : ∀ l : List String,
      (l.filter (· ≠ "")).filterMap Path.pieceComponent? = l.filterMap Path.pieceComponent? := by
    intro l
    rw [List.filterMap_filter]
    refine List.filterMap_congr fun s _ => ?_
    by_cases hs : s = "" <;> simp [hs, Path.pieceComponent?]
  rw [names, List.filterMap_append, hdot, List.append_nil, hfilter]
  rfl

end Start

/-! ### Ways without links -/

section LinkFree

variable {root : Entry} {n : Nat} {place goal : List String} {l : List String}

/-- Without links, names lead to a directory by passing directories. -/
theorem Leads.passes (hfree : root.linkFree = true) (h : Leads root true n place l goal)
    (hl : "" ∉ l) (hgoal : root.isDirAt goal = true) :
    root.Passes place (l.filterMap Path.pieceComponent?) ∧
      (l.filterMap Path.pieceComponent?).foldl Component.move place = goal := by
  have hname : ∀ {s : String} {rest : List String}, "" ∉ s :: rest → IsEntryName s →
      (s :: rest).filterMap Path.pieceComponent? =
        .name s :: rest.filterMap Path.pieceComponent? := by
    intro s rest hl hs
    have hne : s ≠ "" := fun h => hl (by rw [h]; exact List.mem_cons_self)
    exact List.filterMap_cons_some
      (by simp [Path.pieceComponent?, hne, hs.ne_current, hs.ne_parent])
  induction h with
  | done => exact ⟨.here hgoal, rfl⟩
  | stay _ _ ih => exact ih (fun h => hl (List.mem_cons_of_mem _ h)) hgoal
  | up hdir _ ih =>
    obtain ⟨hpasses, hmove⟩ := ih (fun h => hl (List.mem_cons_of_mem _ h)) hgoal
    exact ⟨.on hdir (by simp) hpasses, hmove⟩
  | arrive hdir hs _ =>
    rw [hname hl hs]
    refine ⟨.on hdir ?_ (.here hgoal), rfl⟩
    rintro _ ⟨⟩
    exact hs
  | enter hdir hs _ _ ih =>
    obtain ⟨hpasses, hmove⟩ := ih (fun h => hl (List.mem_cons_of_mem _ h)) hgoal
    rw [hname hl hs]
    refine ⟨.on hdir ?_ hpasses, hmove⟩
    rintro _ ⟨⟩
    exact hs
  | follow _ _ htarget _ _ _ =>
    have hlink := Entry.linkFree_of_at? hfree htarget
    simp [Entry.linkFree] at hlink

/-- What passes directories is followed. -/
theorem Entry.Passes.leads (hl : "" ∉ l) : ∀ {place : List String},
    root.Passes place (l.filterMap Path.pieceComponent?) →
    Leads root true n place l ((l.filterMap Path.pieceComponent?).foldl Component.move place) := by
  induction l with
  | nil => intro place _; exact .done
  | cons s l ih =>
    intro place h
    rw [List.mem_cons, not_or] at hl
    by_cases hcurrent : s = "."
    · subst hcurrent
      exact .stay h.isDirAt (ih hl.2 h)
    by_cases hparent : s = ".."
    · subst hparent
      obtain ⟨hdir, -, hrest⟩ := Entry.passes_cons_iff.1
        (show root.Passes place (.parent :: l.filterMap Path.pieceComponent?) from h)
      exact .up hdir (ih hl.2 hrest)
    · have hname : Path.pieceComponent? s = some (.name s) := by
        simp [Path.pieceComponent?, Ne.symm hl.1, hcurrent, hparent]
      rw [List.filterMap_cons_some hname] at h ⊢
      obtain ⟨hdir, hs, hrest⟩ := Entry.passes_cons_iff.1 h
      exact .enter hdir (hs s rfl) hrest.isDirAt (ih hl.2 hrest)

end LinkFree

namespace Disk

variable {d : Disk} {p : Path}

/-- Without links, a path leads to a directory if it passes directories. -/
theorem find_eq_ok_of_passes (hp : p.Followable)
    (h : d.root.Passes (start d.cwd p.text) p.components) :
    d.find p =
      .ok ⟨p.placeFrom (start d.cwd p.text), d.root.at? (p.placeFrom (start d.cwd p.text))⟩ := by
  rw [passes_components_iff, ← filterMap_names] at h
  have hleads := h.leads (n := linkLimit) (notMem_names p.text)
  rw [filterMap_names, ← placeFrom_start] at hleads
  exact find_eq_ok_iff.2 ⟨hp, hleads, rfl⟩

theorem passes_of_stat {here : Entry} (hfree : d.root.linkFree = true) (hhere : d.stat p = .ok here)
    (hdir : here.isDir = true) : p.Followable ∧
      d.root.Passes (start d.cwd p.text) p.components := by
  obtain ⟨place, hfind⟩ := exists_find_of_stat hhere
  obtain ⟨hp, hleads, hentry⟩ := find_eq_ok_iff.1 hfind
  have hplace : d.root.isDirAt place = true := by
    rw [Entry.isDirAt, ← show some here = d.root.at? place from hentry]
    exact hdir
  have hpasses := (hleads.passes hfree (notMem_names p.text) hplace).1
  rw [filterMap_names] at hpasses
  exact ⟨hp, (passes_components_iff p d.cwd).2 hpasses⟩

/-- **The normal form of a path to a directory leads there, unless it is empty.** -/
theorem find_normal {here : Entry} (hfree : d.root.linkFree = true) (hhere : d.stat p = .ok here)
    (hdir : here.isDir = true) (hne : p.normal.text ≠ "") : d.find p.normal = d.find p := by
  obtain ⟨hp, hpasses⟩ := passes_of_stat hfree hhere hdir
  have hstart : start d.cwd p.normal.text = start d.cwd p.text := by
    rw [start, start, show (Path.mk p.normal.text).isAbsolute =
      (Path.mk p.text).isAbsolute from p.isAbsolute_normal]
  have hnormal : d.root.Passes (start d.cwd p.normal.text) p.normal.components := by
    rw [hstart, Path.components_normal]
    exact hpasses.normalComponents
  rw [find_eq_ok_of_passes (hp.normal hne) hnormal, find_eq_ok_of_passes hp hpasses, hstart,
    Path.placeFrom_normal]

theorem stat_normal {here : Entry} (hfree : d.root.linkFree = true) (hhere : d.stat p = .ok here)
    (hdir : here.isDir = true) (hne : p.normal.text ≠ "") : d.stat p.normal = .ok here := by
  rw [stat, find_normal hfree hhere hdir hne]
  exact hhere

end Disk

end ModuleAtlas
