import ModuleAtlas.Disk.Walk
import ModuleAtlas.Proofs.MapLaws
import ModuleAtlas.Proofs.SegmentLaws
import ModuleAtlas.Scan.SourceName

/-!
# Laws of walks

On a file system whose entries bear names that a directory can hold, a walk finds items under such
names only, each at the path that its names spell from the path of the walk, whether it got there
through links or not.

## Main definitions

* `isFileName` — what may name an entry of a directory.
* `Entry.wellNamed` — all entries of a tree are so named.
* `Position.Reached`, `Found.Reached` — a position or an item lies where its names lead.

## Main results

* `Disk.wellNamed_of_find` — what a path leads to is well named.
* `Disk.reached_of_mem_walk` — **every item of a walk is reached by file names.**
* `exists_extension_of_moduleName`, `properSegment_moduleName` — the name of a source file, and its
  stem.
-/

namespace ModuleAtlas

/-! ### Names of entries -/

/-- Whether a text may name an entry of a directory: it is not empty, stands for no other directory,
and holds no slash. -/
def isFileName (s : String) : Bool := s != "" && s != "." && s != ".." && !s.toList.contains '/'

theorem properSegment_of_isFileName {s : String} (h : isFileName s = true) : ProperSegment s := by
  simp only [isFileName, Bool.and_eq_true, Bool.not_eq_true', bne_iff_ne, ne_eq] at h
  refine ⟨?_, ?_⟩
  · simp [isSegment, h.1.1.1, h.1.1.2]
  · intro hs
    have := h.2
    rw [List.contains_eq_mem, decide_eq_false_iff_not] at this
    exact this hs

namespace Entry

mutual

/-- Whether the names of all entries of a tree are those that a directory can hold. -/
def wellNamed : Entry → Bool
  | file _ _ => true
  | link _ => true
  | dir children => wellNamedAll children

/-- Whether the names of entries, and of all entries below them, are those that a directory can
hold. -/
def wellNamedAll : List (String × Entry) → Bool
  | [] => true
  | (name, e) :: rest => isFileName name && e.wellNamed && wellNamedAll rest

end

theorem wellNamed_of_mem {children : List (String × Entry)} (h : wellNamedAll children = true)
    {p : String × Entry} (hp : p ∈ children) : isFileName p.1 = true ∧ p.2.wellNamed = true := by
  induction children with
  | nil => simp at hp
  | cons q rest ih =>
    rw [wellNamedAll, Bool.and_eq_true, Bool.and_eq_true] at h
    rcases List.mem_cons.1 hp with rfl | hp
    · exact h.1
    · exact ih h.2 hp

theorem wellNamed_child? {e c : Entry} {name : String} (he : e.wellNamed = true)
    (h : e.child? name = some c) : c.wellNamed = true := by
  cases e with
  | file bytes modified => simp [child?, children] at h
  | link target => simp [child?, children] at h
  | dir children =>
    obtain ⟨k, hk, -⟩ := Ordered.exists_mem_of_lookup h
    rw [wellNamed] at he
    exact (wellNamed_of_mem he hk).2

theorem wellNamed_at? {place : List String} : ∀ {e c : Entry}, e.wellNamed = true →
    e.at? place = some c → c.wellNamed = true := by
  induction place with
  | nil =>
    intro e c he h
    rw [at?_nil, Option.some.injEq] at h
    exact h ▸ he
  | cons name place ih =>
    intro e c he h
    rw [at?_cons] at h
    obtain ⟨b, hb, h⟩ := Option.bind_eq_some_iff.1 h
    exact ih (wellNamed_child? he hb) h

end Entry

namespace Disk

/-! ### Where paths lead -/

/-- What a way without links arrives at is well named. -/
theorem wellNamed_of_advance {root : Entry} (hroot : root.wellNamed = true) {followLast : Bool}
    {names : List String} : ∀ {place : List String} {spot : Spot} {e : Entry},
      advance root followLast place names = .arrived spot → spot.entry = some e →
        e.wellNamed = true := by
  induction names with
  | nil =>
    intro place spot e h he
    rw [advance, Progress.arrived.injEq] at h
    rw [← h] at he
    exact Entry.wellNamed_at? hroot he
  | cons name names ih =>
    intro place spot e h he
    rw [advance] at h
    cases hp : root.at? place with
    | none => rw [hp] at h; simp at h
    | some here =>
      rw [hp] at h
      cases here with
      | file bytes modified => simp at h
      | link target => simp at h
      | dir children =>
        simp only at h
        split at h
        · exact ih h he
        split at h
        · exact ih h he
        split at h
        · simp at h
        split at h
        · -- no entry has the name
          split at h
          · obtain rfl := Progress.arrived.inj h
            simp at he
          · simp at h
        · -- a link ends the way, unless it is the last name and not to be followed
          split at h
          · obtain rfl := Progress.arrived.inj h
            rw [← Option.some.inj he, Entry.wellNamed]
          · simp at h
        · exact ih h he

theorem wellNamed_of_locate {d : Disk} (hd : d.root.wellNamed = true) {followLast : Bool}
    {links : Nat} :
    ∀ {place names : List String} {spot : Spot} {e : Entry},
      d.locate followLast links place names = .ok spot → spot.entry = some e →
        e.wellNamed = true := by
  induction links with
  | zero =>
    intro place names spot e h he
    rw [locate] at h
    cases ha : advance d.root followLast place names with
    | stopped err => rw [ha] at h; simp at h
    | arrived s =>
      rw [ha] at h
      obtain rfl : s = spot := Except.ok.inj h
      exact wellNamed_of_advance hd ha he
    | link target place rest => rw [ha] at h; simp at h
  | succ links ih =>
    intro place names spot e h he
    rw [locate] at h
    cases ha : advance d.root followLast place names with
    | stopped err => rw [ha] at h; simp at h
    | arrived s =>
      rw [ha] at h
      obtain rfl : s = spot := Except.ok.inj h
      exact wellNamed_of_advance hd ha he
    | link target place rest =>
      rw [ha] at h
      exact ih h he

/-- What a path leads to is well named. -/
theorem wellNamed_of_find {d : Disk} (hd : d.root.wellNamed = true) {p : Path} {spot : Spot}
    {e : Entry} (h : d.find p = .ok spot) (he : spot.entry = some e) : e.wellNamed = true := by
  rw [find, findVia] at h
  repeat' split at h
  all_goals first
    | exact wellNamed_of_locate hd h he
    | simp at h

end Disk

/-! ### Items of walks -/

/-- Where a walk from `p` stands after going through well-named entries. -/
structure Position.Reached (p : Path) (pos : Position) : Prop where
  /-- The names are those of entries. -/
  named : ∀ s ∈ pos.names, isFileName s = true
  /-- The path is the one that they spell. -/
  spelt : pos.path = pos.names.foldl (fun q s => q.join ⟨s⟩) p

/-- An item of a walk from `p` that lies where its names lead. -/
structure Found.Reached (p : Path) (f : Found) : Prop where
  /-- The names are those of entries. -/
  named : ∀ s ∈ f.names, isFileName s = true
  /-- The path is the one that they spell. -/
  spelt : f.path = f.names.foldl (fun q s => q.join ⟨s⟩) p

namespace Position.Reached

variable {p : Path} {pos : Position} {name : String}

theorem named_concat (h : pos.Reached p) (hname : isFileName name = true) :
    ∀ s ∈ pos.names ++ [name], isFileName s = true := by
  intro s hs
  rcases List.mem_append.1 hs with hs | hs
  · exact h.named s hs
  · rw [List.mem_singleton.1 hs]
    exact hname

theorem spelt_concat (h : pos.Reached p) :
    pos.pathOf name = (pos.names ++ [name]).foldl (fun q s => q.join ⟨s⟩) p := by
  rw [Position.pathOf, h.spelt, List.foldl_append]
  rfl

theorem enter (h : pos.Reached p) (hname : isFileName name = true) (place : List String) :
    (pos.enter name place).Reached p := ⟨h.named_concat hname, h.spelt_concat⟩

theorem directory (h : pos.Reached p) (hname : isFileName name = true) :
    (pos.directory name).Reached p :=
  ⟨h.named_concat hname, h.spelt_concat⟩

theorem file (h : pos.Reached p) (hname : isFileName name = true)
    (content : Except IoError (ByteArray × Millis)) : (pos.file name content).Reached p :=
  ⟨h.named_concat hname, h.spelt_concat⟩

end Position.Reached

section

variable {p : Path} {atLink : Position → String → List Found}

mutual

theorem reached_of_mem_walkEntry
    (hlink : ∀ pos name, pos.Reached p → isFileName name = true → ∀ f ∈ atLink pos name,
      f.Reached p) :
    ∀ (e : Entry), e.wellNamed = true → ∀ {pos : Position} {name : String}, pos.Reached p →
      isFileName name = true → ∀ f ∈ walkEntry atLink pos name e, f.Reached p
  | .file bytes modified, _, pos, name, hpos, hname, f, hf => by
    rw [walkEntry, List.mem_singleton] at hf
    rw [hf]
    exact hpos.file hname _
  | .link target, _, pos, name, hpos, hname, f, hf => by
    rw [walkEntry] at hf
    exact hlink pos name hpos hname f hf
  | .dir children, he, pos, name, hpos, hname, f, hf => by
    rw [Entry.wellNamed] at he
    rw [walkEntry, List.mem_cons] at hf
    rcases hf with rfl | hf
    · exact hpos.directory hname
    · split at hf
      · simp at hf
      · exact reached_of_mem_walkEntries hlink children he (hpos.enter hname _) f hf

theorem reached_of_mem_walkEntries
    (hlink : ∀ pos name, pos.Reached p → isFileName name = true → ∀ f ∈ atLink pos name,
      f.Reached p) :
    ∀ (l : List (String × Entry)), Entry.wellNamedAll l = true → ∀ {pos : Position}, pos.Reached p →
      ∀ f ∈ walkEntries atLink pos l, f.Reached p
  | [], _, pos, _, f, hf => by simp at hf
  | (name, e) :: rest, hl, pos, hpos, f, hf => by
    rw [Entry.wellNamedAll, Bool.and_eq_true, Bool.and_eq_true] at hl
    rw [walkEntries, List.mem_append] at hf
    rcases hf with hf | hf
    · exact reached_of_mem_walkEntry hlink e hl.1.2 hpos hl.1.1 f hf
    · exact reached_of_mem_walkEntries hlink rest hl.2 hpos f hf

end

end

namespace Disk

theorem reached_of_mem_walkBehind {d : Disk} (hd : d.root.wellNamed = true) {p : Path}
    {links : Nat} :
    ∀ pos name, pos.Reached p → isFileName name = true →
      ∀ f ∈ d.walkBehind links pos name, f.Reached p := by
  induction links with
  | zero =>
    intro pos name hpos hname f hf
    rw [walkBehind] at hf
    split at hf
    · rw [List.mem_singleton] at hf
      rw [hf]
      exact hpos.file hname _
    · split at hf <;> simp at hf
    · simp at hf
  | succ links ih =>
    intro pos name hpos hname f hf
    rw [walkBehind] at hf
    split at hf
    · rw [List.mem_singleton] at hf
      rw [hf]
      exact hpos.file hname _
    · -- the walk goes on where the link leads, under the name of the link
      next place children hfind =>
      have hchildren : (Entry.dir children).wellNamed = true := wellNamed_of_find hd hfind rfl
      rw [Entry.wellNamed] at hchildren
      split at hf
      · simp at hf
      · rcases List.mem_cons.1 hf with rfl | hf
        · exact hpos.directory hname
        · exact reached_of_mem_walkEntries ih children hchildren (hpos.enter hname _) f hf
    · simp at hf

/-- **Every item of a walk is reached by file names.** -/
theorem reached_of_mem_walk {d : Disk} (hd : d.root.wellNamed = true) {p : Path} {f : Found}
    (hf : f ∈ d.walk p) : f.Reached p := by
  rw [walk] at hf
  split at hf
  · next place children hfind =>
    have hchildren : (Entry.dir children).wellNamed = true := wellNamed_of_find hd hfind rfl
    rw [Entry.wellNamed] at hchildren
    exact reached_of_mem_walkEntries (reached_of_mem_walkBehind hd) children hchildren
      ⟨by simp, rfl⟩ f hf
  · simp at hf

end Disk

/-! ### Names of source files -/

/-- A cut takes one separator out of a text. -/
theorem Text.eq_append_of_cutLastChars {sep : Char} : ∀ {s before after : List Char},
    cutLastChars sep s = some (before, after) → s = before ++ sep :: after := by
  intro s
  induction s with
  | nil => intro before after h; simp at h
  | cons c s ih =>
    intro before after h
    rw [cutLastChars] at h
    cases hs : cutLastChars sep s with
    | some p =>
      rw [hs] at h
      obtain ⟨rfl, rfl⟩ := Prod.mk.inj (Option.some.inj h)
      rw [ih hs, List.cons_append]
    | none =>
      rw [hs] at h
      simp only at h
      split at h
      · next hc =>
        obtain ⟨rfl, rfl⟩ := Prod.mk.inj (Option.some.inj h)
        rw [hc, List.nil_append]
      · simp at h

/-- A source file is named by its stem and one of the extensions. -/
theorem exists_extension_of_moduleName {name stem : String} {extensions : List String}
    (h : moduleName name extensions = some stem) :
    isReservedStem stem = false ∧ ∃ ext ∈ extensions,
      name.toList = stem.toList ++ '.' :: ext.toList := by
  rw [moduleName] at h
  split at h
  · next before after hcut =>
    split at h
    · simp at h
    · next hsource =>
      obtain rfl := Option.some.inj h
      simp only [Bool.or_eq_true, not_or, Bool.not_eq_true, Bool.not_eq_false'] at hsource
      obtain ⟨⟨b, a⟩, hchars, he⟩ := Option.map_eq_some_iff.1 hcut
      obtain ⟨rfl, rfl⟩ := Prod.mk.inj he
      refine ⟨hsource.1, String.ofList a, List.contains_iff_mem.1 hsource.2, ?_⟩
      rw [String.toList_ofList, String.toList_ofList]
      exact Text.eq_append_of_cutLastChars hchars
  · simp at h

/-- The stem of a source file is a segment. -/
theorem properSegment_moduleName {name stem : String} {extensions : List String}
    (hname : isFileName name = true) (h : moduleName name extensions = some stem) :
    ProperSegment stem := by
  obtain ⟨hreserved, ext, -, hchars⟩ := exists_extension_of_moduleName h
  simp only [isReservedStem, Bool.or_eq_false_iff, decide_eq_false_iff_not] at hreserved
  refine ⟨by simp [isSegment, hreserved.1.1, hreserved.1.2], fun hslash => ?_⟩
  refine (properSegment_of_isFileName hname).2 ?_
  rw [hchars]
  exact List.mem_append_left _ hslash

end ModuleAtlas
