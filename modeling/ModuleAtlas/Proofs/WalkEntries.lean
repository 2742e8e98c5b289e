import ModuleAtlas.Disk.Walk
import ModuleAtlas.Proofs.EntryPlaces

/-!
# What a walk lists

Where there are no links, a walk lists what is below its directory, each entry once and in the order
of the lists of names that lead to the entries.  That order is the one of the names, directory by
directory, so a directory comes before its entries and files of one directory come in the order of
their names.

## Main definitions

* `Entry.ordered` — the names in every directory of a tree increase.
* `Entry.places` — the places at which a tree has an entry, in the order of a walk.
* `Path.below` — the path that names spell from a path.
* `Entry.item`, `Entry.items` — what a walk shows of the entry at a place, and of all that is below.

## Main results

* `Entry.mem_places_iff`, `Entry.pairwise_places` — the places of a tree, in strict order.
* `Disk.walk_eq_items` — **a walk without links shows the places below its directory, in their
  order.**
-/

namespace ModuleAtlas

/-- The path that names spell from a path. -/
def Path.below (p : Path) (names : List String) : Path := names.foldl (fun q s => q.join ⟨s⟩) p

namespace Entry

/-! ### Places -/

mutual

/-- Whether the names in every directory of a tree increase. -/
def ordered : Entry → Bool
  | file _ _ => true
  | link _ => true
  | dir children => decide (Ordered.Increasing children) && orderedAll children

/-- Whether the names in every directory of trees increase. -/
def orderedAll : List (String × Entry) → Bool
  | [] => true
  | (_, e) :: rest => e.ordered && orderedAll rest

end

mutual

/-- The places at which a tree has an entry, a directory before what is in it. -/
def places : Entry → List (List String)
  | file _ _ => [[]]
  | link _ => [[]]
  | dir children => [] :: placesAll children

/-- The places of entries and of what is in them. -/
def placesAll : List (String × Entry) → List (List String)
  | [] => []
  | (name, e) :: rest => e.places.map (name :: ·) ++ placesAll rest

end

theorem ordered_of_mem {children : List (String × Entry)} (h : orderedAll children = true)
    {name : String} {e : Entry} (hmem : (name, e) ∈ children) : e.ordered = true := by
  induction children with
  | nil => cases hmem
  | cons first rest ih =>
    rw [orderedAll, Bool.and_eq_true] at h
    rcases List.mem_cons.1 hmem with rfl | hrest
    · exact h.1
    · exact ih h.2 hrest

theorem ordered_dir {children : List (String × Entry)} (h : (dir children).ordered = true) :
    Ordered.Increasing children ∧ orderedAll children = true := by
  rw [ordered, Bool.and_eq_true, decide_eq_true_eq] at h
  exact h

theorem mem_placesAll_iff {children : List (String × Entry)} {place : List String} :
    place ∈ placesAll children ↔
    ∃ name e below, (name, e) ∈ children ∧ below ∈ e.places ∧ place = name :: below := by
  induction children with
  | nil => simp [placesAll]
  | cons first rest ih =>
    obtain ⟨name, e⟩ := first
    rw [placesAll, List.mem_append, List.mem_map, ih]
    constructor
    · rintro (⟨below, hbelow, rfl⟩ | ⟨s, c, below, hmem, hbelow, rfl⟩)
      · exact ⟨name, e, below, List.mem_cons_self, hbelow, rfl⟩
      · exact ⟨s, c, below, List.mem_cons_of_mem _ hmem, hbelow, rfl⟩
    · rintro ⟨s, c, below, hmem, hbelow, rfl⟩
      rcases List.mem_cons.1 hmem with h | hmem
      · obtain ⟨rfl, rfl⟩ := Prod.mk.inj h
        exact .inl ⟨below, hbelow, rfl⟩
      · exact .inr ⟨s, c, below, hmem, hbelow, rfl⟩

/-- Every entry of a tree is at one of its places. -/
theorem mem_places_iff {place : List String} : ∀ {e : Entry}, e.ordered = true →
    (place ∈ e.places ↔ (e.at? place).isSome = true) := by
  induction place with
  | nil => intro e _; cases e <;> simp [places]
  | cons name below ih =>
    intro e he
    rw [at?_cons]
    cases e with
    | file bytes modified => simp [places, child?, children]
    | link target => simp [places, child?, children]
    | dir children =>
      obtain ⟨hincreasing, hall⟩ := ordered_dir he
      have hlookup : ∀ c, (dir children).child? name = some c ↔ (name, c) ∈ children := fun c =>
        Ordered.lookup_eq_some_iff_mem hincreasing
      rw [places, List.mem_cons, mem_placesAll_iff, Option.isSome_bind]
      constructor
      · rintro (h | ⟨s, c, rest, hmem, hrest, h⟩)
        · cases h
        · obtain ⟨rfl, rfl⟩ := List.cons.inj h
          rw [(hlookup c).2 hmem]
          exact (ih (ordered_of_mem hall hmem)).1 hrest
      · intro h
        obtain ⟨c, hc, hbelow⟩ := (Option.any_eq_true _ _).1 h
        have hmem := (hlookup c).1 hc
        exact .inr ⟨name, c, below, hmem, (ih (ordered_of_mem hall hmem)).2 hbelow, rfl⟩

/-- There is an entry at a place below. -/
def IsBelow (e : Entry) (place : List String) : Prop := place ≠ [] ∧ (e.at? place).isSome = true

theorem mem_tail_places_iff {e : Entry} (hdir : e.isDir = true) (he : e.ordered = true)
    {place : List String} : place ∈ e.places.tail ↔ e.IsBelow place := by
  cases e with
  | file bytes modified => cases hdir
  | link target => cases hdir
  | dir children =>
    rw [IsBelow, ← mem_places_iff he, places, List.tail_cons, List.mem_cons]
    constructor
    · intro h
      obtain ⟨name, -, below, -, -, rfl⟩ := mem_placesAll_iff.1 h
      exact ⟨List.cons_ne_nil name below, .inr h⟩
    · rintro ⟨hne, h⟩
      exact h.resolve_left hne

mutual

/-- The places of a tree come in strict order. -/
theorem pairwise_places : ∀ e : Entry, e.ordered = true →
    e.places.Pairwise fun a b => compare a b = .lt
  | .file _ _, _ => List.pairwise_singleton _ _
  | .link _, _ => List.pairwise_singleton _ _
  | .dir children, he => by
    obtain ⟨hincreasing, hall⟩ := ordered_dir he
    rw [places]
    refine List.pairwise_cons.2 ⟨fun place hplace => ?_,
      pairwise_placesAll children hincreasing hall⟩
    obtain ⟨name, -, below, -, -, rfl⟩ := mem_placesAll_iff.1 hplace
    exact Ordered.compare_append_of_ne_nil [] (List.cons_ne_nil name below)

theorem pairwise_placesAll : ∀ l : List (String × Entry), Ordered.Increasing l →
    orderedAll l = true →
    (placesAll l).Pairwise fun a b => compare a b = .lt
  | [], _, _ => .nil
  | (name, e) :: rest, hincreasing, hall => by
    obtain ⟨hfirst, hincreasing⟩ := List.pairwise_cons.1 hincreasing
    rw [orderedAll, Bool.and_eq_true] at hall
    rw [placesAll]
    refine List.pairwise_append.2 ⟨?_, pairwise_placesAll rest hincreasing hall.2, ?_⟩
    · refine List.pairwise_map.2 ((pairwise_places e hall.1).imp fun {a b} h => ?_)
      exact (Ordered.compare_append [name] a b).trans h
    · intro a ha b hb
      obtain ⟨a, -, rfl⟩ := List.mem_map.1 ha
      obtain ⟨s, c, b, hmem, -, rfl⟩ := mem_placesAll_iff.1 hb
      exact Ordered.compare_append_cons_of_lt [] (hfirst (s, c) hmem) a b

end

/-! ### Items -/

/-- What a walk shows of a file. -/
def content? : Entry → Option (Except IoError (ByteArray × Millis))
  | file bytes modified => some (.ok (bytes, modified))
  | _ => none

/-- What a walk that has come to a directory by a path and by names shows of the entry at a place
below. -/
def item (e : Entry) (p : Path) (names place : List String) : Found :=
  ⟨p.below place, names ++ place, (e.at? place).bind content?⟩

/-- What a walk that starts at a path shows of all that is below. -/
def items (e : Entry) (p : Path) : List Found := e.places.tail.map (e.item p [])

theorem mem_items_iff {e : Entry} (hdir : e.isDir = true) (he : e.ordered = true)
    {p : Path} {f : Found} : f ∈ e.items p ↔ ∃ place, e.IsBelow place ∧ e.item p [] place = f := by
  simp only [items, List.mem_map, mem_tail_places_iff hdir he]

/-- The same is shown from a directory on the way. -/
theorem item_cons {e c : Entry} {name : String} (h : e.child? name = some c) (p : Path)
    (names place : List String) :
    e.item p names (name :: place) = c.item (p.join ⟨name⟩) (names ++ [name]) place := by
  rw [item, item, at?_cons, h, List.append_assoc]
  rfl

end Entry

section Walk

open Entry

variable {atLink : Position → String → List Found}

mutual

theorem walkEntry_eq_map : ∀ (e : Entry), e.linkFree = true → e.ordered = true →
    ∀ {here : Entry} {pos : Position}
    {name : String}, here.child? name = some e →
      (∀ place, (e.at? place).isSome = true → ((pos.pathOf name).below place).isLong = false) →
        walkEntry atLink pos name e = (e.places.map (name :: ·)).map (here.item pos.path pos.names)
  | .file bytes modified, _, _, here, pos, name, hname, hshort => by
    have hlong : (pos.pathOf name).isLong = false := hshort [] rfl
    have hitem : here.item pos.path pos.names [name] = pos.file name (.ok (bytes, modified)) := by
      rw [item, at?_cons, hname]
      rfl
    rw [walkEntry, places, hlong, List.map_singleton, List.map_singleton, hitem]
    rfl
  | .link _, hfree, _, _, _, _, _, _ => by
    rw [Entry.linkFree] at hfree
    cases hfree
  | .dir children, hfree, hordered, here, pos, name, hname, hshort => by
    have hlong : (pos.pathOf name).isLong = false := hshort [] rfl
    have hitem : here.item pos.path pos.names [name] = pos.directory name := by
      rw [item, at?_cons, hname]
      rfl
    obtain ⟨hincreasing, hall⟩ := ordered_dir hordered
    rw [Entry.linkFree] at hfree
    have hchildren : walkEntries atLink (pos.enter name (pos.place ++ [name])) children
        = (placesAll children).map
          ((Entry.dir children).item (pos.pathOf name) (pos.names ++ [name])) :=
      walkEntries_eq_map children hfree hall
        (fun q hq => (Ordered.lookup_eq_some_iff_mem hincreasing).2 hq) hshort
    rw [walkEntry, places, hlong, if_neg (by simp), hchildren, List.map_cons, List.map_cons,
      hitem, List.map_map]
    congr 1
    exact List.map_congr_left fun place _ => (item_cons hname pos.path pos.names place).symm

theorem walkEntries_eq_map : ∀ (l : List (String × Entry)), Entry.linkFreeAll l = true →
    orderedAll l = true →
    ∀ {here : Entry} {pos : Position}, (∀ q ∈ l, here.child? q.1 = some q.2) →
      (∀ place, (here.at? place).isSome = true → (pos.path.below place).isLong = false) →
        walkEntries atLink pos l = (placesAll l).map (here.item pos.path pos.names)
  | [], _, _, _, _, _, _ => by rw [walkEntries_nil, placesAll, List.map_nil]
  | (name, e) :: rest, hfree, hordered, here, pos, hchild, hshort => by
    rw [Entry.linkFreeAll, Bool.and_eq_true] at hfree
    rw [orderedAll, Bool.and_eq_true] at hordered
    have hname : here.child? name = some e := hchild (name, e) List.mem_cons_self
    rw [walkEntries, placesAll, List.map_append]
    congr 1
    · refine walkEntry_eq_map e hfree.1 hordered.1 hname fun place hplace =>
        hshort (name :: place) ?_
      rw [at?_cons, hname]
      exact hplace
    · exact walkEntries_eq_map rest hfree.2 hordered.2
        (fun q hq => hchild q (List.mem_cons_of_mem _ hq)) hshort

end

/-- What a path leads to is found at some place. -/
theorem Disk.exists_find_of_stat {d : Disk} {p : Path} {e : Entry} (h : d.stat p = .ok e) :
    ∃ place, d.find p = .ok ⟨place, some e⟩ := by
  rw [stat] at h
  cases hfind : d.find p with
  | error f =>
    rw [hfind] at h
    cases h
  | ok spot =>
    obtain ⟨place, entry⟩ := spot
    rw [hfind] at h
    cases entry with
    | none => cases h
    | some e' =>
      obtain rfl := Except.ok.inj h
      exact ⟨place, rfl⟩

/-- **A walk without links shows the places below its directory, in their order.** -/
theorem Disk.walk_eq_items {d : Disk} {p : Path} {here : Entry} (hhere : d.stat p = .ok here)
    (hdir : here.isDir = true) (hfree : here.linkFree = true) (hordered : here.ordered = true)
    (hshort : ∀ place, (here.at? place).isSome = true → (p.below place).isLong = false) :
    d.walk p = here.items p := by
  cases here with
  | file bytes modified => cases hdir
  | link target => cases hdir
  | dir children =>
    obtain ⟨hincreasing, hall⟩ := ordered_dir hordered
    rw [Entry.linkFree] at hfree
    obtain ⟨place, hfind⟩ := exists_find_of_stat hhere
    rw [walk, hfind]
    exact walkEntries_eq_map children hfree hall
      (fun q hq => (Ordered.lookup_eq_some_iff_mem hincreasing).2 hq) hshort

end Walk

end ModuleAtlas
