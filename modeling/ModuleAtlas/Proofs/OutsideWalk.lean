import ModuleAtlas.Proofs.FileWriting
import ModuleAtlas.Scan.Basic

/-!
# Walks that do not come to a place

A walk looks at the directories and files that it comes to, and at nothing else.  So what is at a
place makes no difference to the walk, nor to a scan, if the walk comes neither there nor to a
directory above.

## Main definitions

* `Disk.Comes` — a walk comes to a spot by a path, through entries of directories and through links.
* `Disk.Outside` — the walk comes neither to a place nor to a directory above it.

## Main results

* `Disk.Outside.of_sameOff` — what is outside stays outside when something else changes outside.
* `Disk.outside_of_linkFree` — what is not below the place of the walk is outside if the walk meets
  no link.
* `Disk.Outside.walk_eq` — **a walk is the same on disks that are the same off a place outside.**
* `Disk.Outside.scan_eq` — so is a scan.
-/

namespace ModuleAtlas

namespace Disk

/-- The walk of a path comes to a spot by another path. -/
inductive Comes (d : Disk) (l : Path) : Path → Spot → Prop where
  /-- It starts where its path leads. -/
  | start {spot : Spot} (hfind : d.find l = .ok spot) : Comes d l l spot
  /-- It goes on from a directory to an entry that is no link. -/
  | entry {q : Path} {place : List String} {children : List (String × Entry)} {name : String}
      {e : Entry} (h : Comes d l q ⟨place, some (.dir children)⟩) (hmem : (name, e) ∈ children)
      (hlink : e.isLink = false) :
      Comes d l (q.join ⟨name⟩) ⟨place ++ [name], some e⟩
  /-- It goes through a link in a directory to where the link leads. -/
  | link {q : Path} {place : List String} {children : List (String × Entry)} {name target : String}
      {spot : Spot} (h : Comes d l q ⟨place, some (.dir children)⟩)
      (hmem : (name, .link target) ∈ children) (hfind : d.find (q.join ⟨name⟩) = .ok spot) :
      Comes d l (q.join ⟨name⟩) spot

/-- The walk of a path comes neither to a place nor to a directory above it. -/
def Outside (d : Disk) (l : Path) (x : List String) : Prop :=
  ∀ q spot, d.Comes l q spot → ¬ spot.place <+: x

variable {d d' : Disk} {l q : Path} {x y : List String} {spot : Spot}

/-! ### What walks come to -/

/-- A path finds the same on disks that are the same off a place, if it leads neither there nor
above. -/
theorem SameOff.find_eq_ok (h : SameOff x d d') (hfind : d.find q = .ok spot)
    (hout : ¬ spot.place <+: x) : d'.find q = .ok spot := by
  obtain ⟨hleads, hentry⟩ := find_eq_ok_iff_leadsTo.1 hfind
  refine find_eq_ok_iff_leadsTo.2 ⟨h.leadsTo hleads, ?_⟩
  rw [hentry, h.root.at?_eq hout]

/-- Then it finds a spot on both disks, or on none. -/
theorem SameOff.find_cases (h : SameOff x d d')
    (hout : ∀ spot, d.find q = .ok spot → ¬ spot.place <+: x) :
    (∃ spot, d.find q = .ok spot ∧ d'.find q = .ok spot) ∨
      (∃ e, d.find q = .error e) ∧ ∃ e, d'.find q = .error e := by
  cases hfind : d.find q with
  | ok spot => exact .inl ⟨spot, rfl, h.find_eq_ok hfind (hout spot hfind)⟩
  | error e =>
    cases hfind' : d'.find q with
    | error e' => exact .inr ⟨⟨e, rfl⟩, e', rfl⟩
    | ok spot =>
      have hleads := h.symm.leadsTo (find_eq_ok_iff_leadsTo.1 hfind').1
      rw [hleads.find_eq] at hfind
      cases hfind

theorem SameOff.find_eq_ok_of_right (h : SameOff x d d') (hfind : d'.find q = .ok spot)
    (hout : ∀ spot, d.find q = .ok spot → ¬ spot.place <+: x) : d.find q = .ok spot := by
  rcases h.find_cases hout with ⟨spot', hd, hd'⟩ | ⟨-, e, hd'⟩
  · rw [hd, ← hd', hfind]
  · rw [hd'] at hfind
    cases hfind

namespace Outside

/-- On disks that are the same off a place outside, a walk comes to the same spots. -/
theorem comes_of_sameOff (hout : d.Outside l x) (h : SameOff x d d') (hcomes : d'.Comes l q spot) :
    d.Comes l q spot := by
  induction hcomes with
  | start hfind => exact .start (h.find_eq_ok_of_right hfind fun _ hd => hout _ _ (.start hd))
  | entry _ hmem hlink ih => exact .entry ih hmem hlink
  | link _ hmem hfind ih =>
      exact .link ih hmem (h.find_eq_ok_of_right hfind fun _ hd => hout _ _ (.link ih hmem hd))

/-- What is outside stays outside when something else changes outside. -/
theorem of_sameOff (hout : d.Outside l x) (h : SameOff x d d') (hy : d.Outside l y) :
    d'.Outside l y :=
  fun q spot hcomes => hy q spot (hout.comes_of_sameOff h hcomes)

end Outside

/-- A walk that meets no link comes to places below that of its path only. -/
theorem outside_of_linkFree (hfind : d.find l = .ok spot)
    (hfree : spot.entry.all Entry.linkFree = true) (hx : ¬ spot.place <+: x) : d.Outside l x := by
  have hbelow : ∀ q s, d.Comes l q s → spot.place <+: s.place ∧
      s.entry.all Entry.linkFree = true := by
    intro q s hcomes
    induction hcomes with
    | start h =>
      obtain rfl := Except.ok.inj (hfind.symm.trans h)
      exact ⟨List.prefix_rfl, hfree⟩
    | entry _ hmem _ ih =>
        exact ⟨ih.1.trans (List.prefix_append _ _), Entry.linkFree_of_mem ih.2 hmem⟩
    | link _ hmem _ ih => exact absurd (Entry.linkFree_of_mem ih.2 hmem) (by simp [Entry.linkFree])
  intro q s hcomes hprefix
  exact hx ((hbelow q s hcomes).1.trans hprefix)

end Disk

/-! ### Walks -/

section Walk

open Disk

variable {d : Disk} {l : Path} {atLink atLink' : Position → String → List Found}

mutual

/-- What a walk finds at an entry depends on what it finds at the links to which it comes. -/
theorem walkEntry_congr
    (hlinks : ∀ {pos : Position} {children : List (String × Entry)} {name target : String},
      d.Comes l pos.path ⟨pos.place, some (.dir children)⟩ → (name, .link target) ∈ children →
        atLink pos name = atLink' pos name)
    {pos : Position} {children : List (String × Entry)} {name : String}
    (hcomes : d.Comes l pos.path ⟨pos.place, some (.dir children)⟩) :
    ∀ {e : Entry}, (name, e) ∈ children →
      walkEntry atLink pos name e = walkEntry atLink' pos name e
  | .file bytes modified, _ => by rw [walkEntry, walkEntry]
  | .link target, hmem => by rw [walkEntry, walkEntry, hlinks hcomes hmem]
  | .dir below, hmem => by
    have hbelow : d.Comes l (pos.enter name (pos.place ++ [name])).path
        ⟨(pos.enter name (pos.place ++ [name])).place, some (.dir below)⟩ := .entry hcomes hmem rfl
    rw [walkEntry, walkEntry, walkEntries_congr hlinks hbelow fun p hp => hp]

theorem walkEntries_congr
    (hlinks : ∀ {pos : Position} {children : List (String × Entry)} {name target : String},
      d.Comes l pos.path ⟨pos.place, some (.dir children)⟩ → (name, .link target) ∈ children →
        atLink pos name = atLink' pos name)
    {pos : Position} {children : List (String × Entry)}
    (hcomes : d.Comes l pos.path ⟨pos.place, some (.dir children)⟩) :
    ∀ {rest : List (String × Entry)},
      (∀ p ∈ rest, p ∈ children) → walkEntries atLink pos rest = walkEntries atLink' pos rest
  | [], _ => by rw [walkEntries_nil, walkEntries_nil]
  | (name, e) :: rest, hrest => by
    rw [walkEntries, walkEntries,
      walkEntry_congr hlinks hcomes (hrest (name, e) List.mem_cons_self),
      walkEntries_congr hlinks hcomes fun p hp => hrest p (List.mem_cons_of_mem _ hp)]

end

end Walk

namespace Disk.Outside

variable {d d' : Disk} {l : Path} {x : List String}

/-- What a walk finds at a link depends on nothing outside. -/
theorem walkBehind_eq (hout : d.Outside l x) (h : SameOff x d d') {links : Nat} :
    ∀ {pos : Position} {children : List (String × Entry)} {name target : String},
      d.Comes l pos.path ⟨pos.place, some (.dir children)⟩ → (name, .link target) ∈ children →
        d.walkBehind links pos name = d'.walkBehind links pos name := by
  have hfind {pos : Position} {children : List (String × Entry)} {name target : String}
      (hcomes : d.Comes l pos.path ⟨pos.place, some (.dir children)⟩)
        (hmem : (name, .link target) ∈ children) :
      (∃ spot, d.find (pos.pathOf name) = .ok spot ∧ d'.find (pos.pathOf name) = .ok spot) ∨
        (∃ e, d.find (pos.pathOf name) = .error e) ∧ ∃ e, d'.find (pos.pathOf name) = .error e :=
    h.find_cases fun _ hd => hout _ _ (.link hcomes hmem hd)
  induction links with
  | zero =>
    intro pos children name target hcomes hmem
    rw [walkBehind, walkBehind]
    rcases hfind hcomes hmem with ⟨spot, hd, hd'⟩ | ⟨⟨e, hd⟩, e', hd'⟩
    · rw [hd, hd']
    · rw [hd, hd']
  | succ links ih =>
    intro pos children name target hcomes hmem
    rw [walkBehind, walkBehind]
    rcases hfind hcomes hmem with ⟨⟨place, entry⟩, hd, hd'⟩ | ⟨⟨e, hd⟩, e', hd'⟩
    · rw [hd, hd']
      cases entry with
      | none => rfl
      | some e =>
        cases e with
        | file bytes modified => rfl
        | link t => rfl
        | dir below =>
          have hbelow : d.Comes l (pos.enter name place).path
              ⟨(pos.enter name place).place, some (.dir below)⟩ := .link hcomes hmem hd
          dsimp only
          rw [walkEntries_congr ih hbelow fun p hp => hp]
    · rw [hd, hd']

/-- **A walk is the same on disks that are the same off a place outside.** -/
theorem walk_eq (hout : d.Outside l x) (h : SameOff x d d') : d.walk l = d'.walk l := by
  rw [walk, walk]
  rcases h.find_cases fun _ hd => hout _ _ (.start hd) with
    ⟨⟨place, entry⟩, hd, hd'⟩ | ⟨⟨e, hd⟩, e', hd'⟩
  · rw [hd, hd']
    cases entry with
    | none => rfl
    | some e =>
      cases e with
      | file bytes modified => rfl
      | link t => rfl
      | dir children =>
        have hstart : d.Comes l (Position.mk l [] [place]).path
            ⟨(Position.mk l [] [place]).place, some (.dir children)⟩ := .start hd
        exact walkEntries_congr (hout.walkBehind_eq h) hstart fun p hp => hp
  · rw [hd, hd']

/-- **So is a scan.** -/
theorem scan_eq (hout : d.Outside l x) (h : SameOff x d d') (previous : Option Tree)
    (extensions : List String) (reader : SourceReader) :
    d.scan l previous extensions reader = d'.scan l previous extensions reader := by
  rw [scan, scan, hout.walk_eq h]

end Disk.Outside

end ModuleAtlas
