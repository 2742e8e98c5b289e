import Mathlib.Data.List.Infix
import ModuleAtlas.Disk.Entry
import ModuleAtlas.Proofs.MapLaws

/-!
# Entries and their places

What is at a place of a tree of entries is found by way of the directories above it, and putting an
entry that is no directory at a place where there was none changes what is found at that place and
nowhere else.

## Main definitions

* `Entry.isDirAt`, `Entry.isLinkAt`, `Entry.kindAt` — what kind of entry is at a place.
* `Entry.DirsTo` — a place in a directory.
* `Entry.SameOff` — two trees that are the same but for a place at which neither has a directory.

## Main results

* `Entry.at?_put_self`, `Entry.at?_put_elsewhere` — what is found after an entry is put at a place.
* `Entry.SameOff.at?_eq`, `Entry.SameOff.isDirAt_eq` — what two such trees agree on.
* `Entry.sameOff_put` — **a tree is changed at one place only.**
-/

namespace ModuleAtlas

namespace Entry

/-- Whether it is a link. -/
def isLink : Entry → Bool
  | link _ => true
  | _ => false

/-- Whether there is a directory at a place. -/
def isDirAt (e : Entry) (place : List String) : Bool := (e.at? place).any isDir

/-- Whether there is a link at a place. -/
def isLinkAt (e : Entry) (place : List String) : Bool := (e.at? place).any isLink

/-- What kind of entry it is, with the path that a link holds. -/
inductive Kind where
  /-- A file. -/
  | file
  /-- A symbolic link. -/
  | link (target : String)
  /-- A directory. -/
  | dir
  deriving DecidableEq

/-- The kind of an entry. -/
def kind : Entry → Kind
  | file _ _ => .file
  | link target => .link target
  | dir _ => .dir

/-- The kind of the entry at a place. -/
def kindAt (e : Entry) (place : List String) : Option Kind := (e.at? place).map kind

/-! ### Looking at places -/

theorem at?_append (e : Entry) (p q : List String) :
    e.at? (p ++ q) = (e.at? p).bind fun c => c.at? q := List.foldlM_append

theorem at?_concat (e : Entry) (p : List String) (s : String) :
    e.at? (p ++ [s]) = (e.at? p).bind fun c => c.child? s := by
  rw [at?_append]
  congr 1
  funext c
  rw [at?_cons]
  cases c.child? s <;> rfl

theorem isDirAt_iff {e : Entry} {place : List String} :
    e.isDirAt place = true ↔ ∃ children, e.at? place = some (.dir children) := by
  rw [isDirAt]
  cases e.at? place with
  | none => simp
  | some c => cases c <;> simp [isDir]

theorem isDirAt_iff_kindAt {e : Entry} {place : List String} :
    e.isDirAt place = true ↔ e.kindAt place = some .dir := by
  rw [isDirAt, kindAt]
  cases e.at? place with
  | none => simp
  | some c => cases c <;> simp [isDir, kind]

theorem isLinkAt_iff {e : Entry} {place : List String} :
    e.isLinkAt place = true ↔ ∃ target, e.at? place = some (.link target) := by
  rw [isLinkAt]
  cases e.at? place with
  | none => simp
  | some c => cases c <;> simp [isLink]

theorem isLinkAt_of_at? {e : Entry} {place : List String} {target : String}
    (h : e.at? place = some (link target)) : e.isLinkAt place = true := isLinkAt_iff.2 ⟨target, h⟩

theorem isLinkAt_of_isDirAt {e : Entry} {place : List String} (h : e.isDirAt place = true) :
    e.isLinkAt place = false := by
  obtain ⟨children, hplace⟩ := isDirAt_iff.1 h
  rw [isLinkAt, hplace]
  rfl

/-- In a directory, the entry of a name is at the place of the name. -/
theorem at?_concat_of_dir {e : Entry} {place : List String} {children : List (String × Entry)}
    (h : e.at? place = some (.dir children)) (s : String) :
    e.at? (place ++ [s]) = Ordered.lookup s children := by
  rw [at?_concat, h]
  rfl

theorem child?_of_not_isDir {e : Entry} (h : e.isDir = false) (s : String) : e.child? s = none := by
  cases e with
  | file bytes modified => rfl
  | link target => rfl
  | dir children => exact absurd h (by simp [isDir])

/-- Below what is no directory there is nothing. -/
theorem at?_append_eq_none {e : Entry} {place below : List String} (h : e.isDirAt place = false)
    (hbelow : below ≠ []) : e.at? (place ++ below) = none := by
  obtain ⟨s, rest, rfl⟩ := List.exists_cons_of_ne_nil hbelow
  rw [at?_append]
  cases hplace : e.at? place with
  | none => rfl
  | some c =>
    have hc : c.isDir = false := by simpa [isDirAt, hplace] using h
    rw [Option.bind_some, at?_cons, child?_of_not_isDir hc]
    rfl

/-- Above a directory there are directories only. -/
theorem isDirAt_of_prefix {e : Entry} {p q : List String} (hq : e.isDirAt q = true)
    (hpq : p <+: q) : e.isDirAt p = true := by
  obtain ⟨below, rfl⟩ := hpq
  by_cases hbelow : below = []
  · rwa [hbelow, List.append_nil] at hq
  · cases hp : e.isDirAt p with
    | true => rfl
    | false =>
      rw [isDirAt, at?_append_eq_none hp hbelow] at hq
      exact absurd hq (by simp)

/-- A place is in a directory: all places on the way to it are directories. -/
def DirsTo (e : Entry) (place : List String) : Prop :=
  ∀ p, p <+: place → p ≠ place → e.isDirAt p = true

theorem dirsTo_concat {e : Entry} {place : List String} (h : e.isDirAt place = true) (s : String) :
    e.DirsTo (place ++ [s]) := by
  intro p hp hne
  exact isDirAt_of_prefix h ((List.prefix_concat_iff.1 hp).resolve_left hne)

theorem DirsTo.exists_children {e : Entry} {s : String} {rest : List String}
    (h : e.DirsTo (s :: rest)) : ∃ children, e = .dir children := by
  obtain ⟨children, h⟩ := isDirAt_iff.1 (h [] List.nil_prefix (List.cons_ne_nil s rest).symm)
  exact ⟨children, Option.some.inj h⟩

theorem DirsTo.exists_child {e : Entry} {s : String} {rest : List String} (h : e.DirsTo (s :: rest))
    (hrest : rest ≠ []) : ∃ c, e.child? s = some c ∧ c.DirsTo rest := by
  have hbelow : ∀ p, p <+: rest → p ≠ rest → ∃ c, e.child? s = some c ∧ c.isDirAt p = true := by
    intro p hp hne
    obtain ⟨children, hdir⟩ :=
      isDirAt_iff.1 (h (s :: p) (List.cons_prefix_cons.2 ⟨rfl, hp⟩) (by simpa using hne))
    obtain ⟨c, hc, hdir⟩ := Option.bind_eq_some_iff.1 ((at?_cons e s p).symm.trans hdir)
    exact ⟨c, hc, isDirAt_iff.2 ⟨children, hdir⟩⟩
  obtain ⟨c, hc, -⟩ := hbelow [] List.nil_prefix hrest.symm
  refine ⟨c, hc, fun p hp hne => ?_⟩
  obtain ⟨c', hc', hdir⟩ := hbelow p hp hne
  rwa [Option.some.inj (hc.symm.trans hc')]

/-- The entries of a directory without links below it have none either. -/
theorem linkFree_of_mem {children : List (String × Entry)} (h : linkFreeAll children = true)
    {name : String} {e : Entry} (hmem : (name, e) ∈ children) : e.linkFree = true := by
  induction children with
  | nil => cases hmem
  | cons first rest ih =>
    rw [linkFreeAll, Bool.and_eq_true] at h
    rcases List.mem_cons.1 hmem with rfl | hrest
    · exact h.1
    · exact ih h.2 hrest

theorem linkFree_of_at? {place : List String} :
    ∀ {e c : Entry}, e.linkFree = true → e.at? place = some c → c.linkFree = true := by
  induction place with
  | nil =>
    intro e c he hc
    rwa [← Option.some.inj hc]
  | cons s rest ih =>
    intro e c he hc
    obtain ⟨d, hd, hrest⟩ := Option.bind_eq_some_iff.1 ((at?_cons e s rest).symm.trans hc)
    cases e with
    | file bytes modified => cases hd
    | link target => cases hd
    | dir children =>
      rw [linkFree] at he
      obtain ⟨name, hmem, -⟩ := Ordered.exists_mem_of_lookup hd
      exact ih (linkFree_of_mem he hmem) hrest

/-! ### Putting an entry at a place -/

theorem child?_put (new : Entry) (children : List (String × Entry)) (s t : String)
    (rest : List String) :
    (put new (dir children) (s :: rest)).child? t
      = if t = s then some (put new ((Ordered.lookup s children).getD empty) rest)
        else (dir children).child? t := by
  rw [put, child?, children_dir, Ordered.lookup_bind]
  simp only [Std.LawfulEqOrd.compare_eq_iff_eq]
  rfl

theorem at?_put_self (new : Entry) {place : List String} : ∀ {e : Entry}, e.DirsTo place →
    (put new e place).at? place = some new := by
  induction place with
  | nil => intro e _; rw [put_nil, at?_nil]
  | cons s rest ih =>
    intro e h
    obtain ⟨children, rfl⟩ := h.exists_children
    rw [at?_cons, child?_put, if_pos rfl, Option.bind_some]
    by_cases hrest : rest = []
    · rw [hrest, put_nil, at?_nil]
    · obtain ⟨c, hc, hdirs⟩ := h.exists_child hrest
      rw [show Ordered.lookup s children = some c from hc]
      exact ih hdirs

/-- An entry is put beside what is elsewhere. -/
theorem at?_put_elsewhere (new : Entry) {place : List String} : ∀ {e : Entry}, e.DirsTo place →
    ∀ {q : List String}, ¬ place <+: q → ¬ q <+: place → (put new e place).at? q = e.at? q := by
  induction place with
  | nil => intro e _ q hq; exact absurd List.nil_prefix hq
  | cons s rest ih =>
    intro e h q hbelow habove
    obtain ⟨children, rfl⟩ := h.exists_children
    cases q with
    | nil => exact absurd List.nil_prefix habove
    | cons t q =>
      rw [at?_cons, at?_cons, child?_put]
      by_cases hts : t = s
      · subst hts
        rw [List.cons_prefix_cons, not_and] at hbelow habove
        have hrest : rest ≠ [] := by
          rintro rfl
          exact hbelow rfl List.nil_prefix
        obtain ⟨c, hc, hdirs⟩ := h.exists_child hrest
        have hlookup : Ordered.lookup t children = some c := hc
        rw [if_pos rfl, hc, hlookup]
        exact ih hdirs (hbelow rfl) (habove rfl)
      · rw [if_neg hts]

/-- The directories on the way stay directories. -/
theorem dirsTo_put (new : Entry) {place : List String} : ∀ {e : Entry}, e.DirsTo place →
    (put new e place).DirsTo place := by
  induction place with
  | nil => intro e _ p hp hne; exact absurd (List.prefix_nil.1 hp) hne
  | cons s rest ih =>
    intro e h p hp hne
    obtain ⟨children, rfl⟩ := h.exists_children
    cases p with
    | nil => rfl
    | cons t p =>
      obtain ⟨rfl, hrestp⟩ := List.cons_prefix_cons.1 hp
      have hrest : rest ≠ [] := by
        rintro rfl
        rw [List.prefix_nil.1 hrestp] at hne
        exact hne rfl
      obtain ⟨c, hc, hdirs⟩ := h.exists_child hrest
      have hlookup : Ordered.lookup t children = some c := hc
      have hdir := ih hdirs p hrestp (fun h => hne (by rw [h]))
      rw [isDirAt, at?_cons, child?_put, if_pos rfl, hlookup]
      exact hdir

/-! ### Trees that are the same elsewhere -/

/-- Two trees are the same off a place at which neither has a directory. -/
structure SameOff (x : List String) (e e' : Entry) : Prop where
  /-- The place is in a directory of the first tree. -/
  left_dirs : e.DirsTo x
  /-- The place is in a directory of the second tree. -/
  right_dirs : e'.DirsTo x
  /-- The first tree has no directory there. -/
  left_leaf : e.isDirAt x = false
  /-- The second tree has no directory there. -/
  right_leaf : e'.isDirAt x = false
  /-- Elsewhere they have the same. -/
  elsewhere : ∀ q, ¬ x <+: q → ¬ q <+: x → e.at? q = e'.at? q

namespace SameOff

variable {x : List String} {e e' : Entry}

theorem symm (h : SameOff x e e') : SameOff x e' e :=
  ⟨h.right_dirs, h.left_dirs, h.right_leaf, h.left_leaf, fun q hbelow habove =>
    (h.elsewhere q hbelow habove).symm⟩

/-- The same is found at every place but those on the way. -/
theorem at?_eq (h : SameOff x e e') {q : List String} (hq : ¬ q <+: x) : e.at? q = e'.at? q := by
  by_cases hbelow : x <+: q
  · obtain ⟨below, rfl⟩ := hbelow
    have hne : below ≠ [] := by
      rintro rfl
      exact hq (by rw [List.append_nil])
    rw [at?_append_eq_none h.left_leaf hne, at?_append_eq_none h.right_leaf hne]
  · exact h.elsewhere q hbelow hq

/-- The places on the way apart from the last one are directories of both trees. -/
theorem isDirAt_eq (h : SameOff x e e') (q : List String) : e.isDirAt q = e'.isDirAt q := by
  by_cases hq : q <+: x
  · by_cases hx : q = x
    · rw [hx, h.left_leaf, h.right_leaf]
    · rw [h.left_dirs q hq hx, h.right_dirs q hq hx]
  · rw [isDirAt, isDirAt, h.at?_eq hq]

/-- A place with no directory is the place itself, or it has the same entry in both trees. -/
theorem at?_eq_of_not_isDir (h : SameOff x e e') {q : List String} (hq : e.isDirAt q = false)
    (hne : q ≠ x) : e.at? q = e'.at? q := by
  apply h.at?_eq
  intro hprefix
  exact Bool.false_ne_true (hq.symm.trans (h.left_dirs q hprefix hne))

theorem isLinkAt_eq (h : SameOff x e e') {q : List String} (hne : q ≠ x) :
    e.isLinkAt q = e'.isLinkAt q := by
  cases hq : e.isDirAt q with
  | false => rw [isLinkAt, isLinkAt, h.at?_eq_of_not_isDir hq hne]
  | true => rw [isLinkAt_of_isDirAt hq, isLinkAt_of_isDirAt ((h.isDirAt_eq q).symm.trans hq)]

/-- If both trees have an entry of the same kind at the place, then they do everywhere. -/
theorem kindAt_eq (h : SameOff x e e') (hx : e.kindAt x = e'.kindAt x) (q : List String) :
    e.kindAt q = e'.kindAt q := by
  by_cases hq : q <+: x
  · by_cases hne : q = x
    · rw [hne, hx]
    · rw [isDirAt_iff_kindAt.1 (h.left_dirs q hq hne), isDirAt_iff_kindAt.1 (h.right_dirs q hq hne)]
  · rw [kindAt, kindAt, h.at?_eq hq]

end SameOff

/-- **A tree is changed at one place only**, if an entry that is no directory is put where there is
none. -/
theorem sameOff_put {e new : Entry} {place : List String} (hdirs : e.DirsTo place)
    (hleaf : e.isDirAt place = false) (hnew : new.isDir = false) :
    SameOff place e (put new e place) where
  left_dirs := hdirs
  right_dirs := dirsTo_put new hdirs
  left_leaf := hleaf
  right_leaf := by rw [isDirAt, at?_put_self new hdirs, Option.any_some, hnew]
  elsewhere q hbelow habove := (at?_put_elsewhere new hdirs hbelow habove).symm

end Entry

end ModuleAtlas
