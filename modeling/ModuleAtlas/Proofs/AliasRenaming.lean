import ModuleAtlas.Proofs.Positions
import ModuleAtlas.Proofs.Traversal

/-!
# Renaming the alias of a tree

The modules of a tree behave the same under any alias.  A request for modules of the only tree that
is mounted has, as long as it stays within the tree, a closure that is that of the same request
under another alias, with the one alias in place of the other.

Both closures are the image of one closure that knows nothing of aliases: it lists paths in the
tree, and what names them.  An alias gives ids to paths, different ones to different paths, so that
nothing is met or noted before under one alias that was not under the other.  Relative specifiers
lead to the same paths, because the segments of an alias stay where they are as long as no step goes
above the root of the tree.

## Main definitions

* `staysWithin`, `inTree` — specifiers that never lead above the root of a tree.
* `ModulePath`, `ModulePath.under` — the path of a module in a tree, and its id under an alias.
* `Tree.Needs`, `Tree.SelfContained` — the paths that a request needs; none of them declares what
  leads out.
* `Mention`, `TreeClosure` — pending modules and closures without their alias.
* `AliasMap.only` — the only tree that is mounted.
* `Closure.moved` — a closure with one alias in place of another one.

## Main results

* `ModulePath.resolveSpecifier_under` — a specifier that stays within the tree leads to the same
  path.
* `Namespace.Holds.backs_under_iff` — an alias shows the files of its tree.
* `Namespace.Visits.exists_moved` — a traversal under one alias is a traversal under the other.
* `Namespace.expand_moved` — **hence so is the closure of a request.**
-/

namespace ModuleAtlas

/-! ### Steps within a tree -/

/-- Whether steps from a place never lead above the top. -/
def staysWithin : List String → List String → Bool
  | _, [] => true
  | place, s :: rest => (s != ".." || !place.isEmpty) && staysWithin (step place s) rest

/-- What stands above the top does not matter to steps that stay below it. -/
theorem foldl_step_append (top : List String) {specifier : List String} : ∀ {place : List String},
    staysWithin place specifier = true →
      specifier.foldl step (top ++ place) = top ++ specifier.foldl step place := by
  induction specifier with
  | nil => intro place _; rfl
  | cons s specifier ih =>
    intro place h
    rw [staysWithin, Bool.and_eq_true, Bool.or_eq_true, bne_iff_ne, ne_eq, Bool.not_eq_true',
      List.isEmpty_eq_false_iff] at h
    have hstep : step (top ++ place) s = top ++ step place s := by
      by_cases hs : s = ".."
      · subst hs
        rw [step_parent, step_parent,
          List.dropLast_append_of_ne_nil (h.1.resolve_left (not_not.2 rfl))]
      · rw [step_name hs, step_name hs, List.append_assoc]
    rw [List.foldl_cons, List.foldl_cons, hstep, ih h.2]

/-- Whether a specifier of the module at a path is relative and never leads above the root of the
tree.  A module at the root lies in no directory of the tree. -/
def inTree (path : List String) (specifier : String) : Bool :=
  isRelative specifier && !path.isEmpty && staysWithin path.dropLast (segments specifier)

/-- The path of a module in a tree, as far as ids can name it. -/
structure ModulePath where
  /-- The names from the root of the tree. -/
  names : List String
  /-- They can be segments of an id. -/
  proper : ∀ s ∈ names, ProperSegment s
  deriving DecidableEq

namespace ModulePath

/-- The path that an id names, if it is that of a module seen from the root of the tree. -/
def ofId (id : String) : ModulePath := ⟨segments id, fun _ h => properSegment_of_mem_segments h⟩

/-- The path to which a relative specifier of the module leads. -/
def resolve (p : ModulePath) (specifier : String) : ModulePath where
  names := resolveSegments p.names (segments specifier)
  proper := properSegment_of_mem_resolveSegments p.proper fun _ h => properSegment_of_mem_segments h

/-- The id of the module when its tree is mounted at an alias. -/
def under (name : String) (p : ModulePath) : String := joinSegments (segments name ++ p.names)

theorem properSegment_of_mem_under (name : String) (p : ModulePath) :
    ∀ s ∈ segments name ++ p.names, ProperSegment s := by
  intro s hs
  rcases List.mem_append.1 hs with hs | hs
  · exact properSegment_of_mem_segments hs
  · exact p.proper s hs

theorem segments_under (name : String) (p : ModulePath) :
    segments (p.under name) = segments name ++ p.names :=
  segments_joinSegments (p.properSegment_of_mem_under name)

/-- Different modules of a tree have different ids. -/
theorem under_injective (name : String) : Function.Injective (under name) := by
  intro p q h
  have hnames := List.append_cancel_left
    (joinSegments_injective (p.properSegment_of_mem_under name)
      (q.properSegment_of_mem_under name) h)
  cases p
  cases q
  congr

/-- A specifier that stays within the tree leads to the same path, whatever the alias. -/
theorem resolveSpecifier_under {p : ModulePath} {specifier : String}
    (h : inTree p.names specifier = true) (name : String) :
    resolveSpecifier (p.under name) specifier = (p.resolve specifier).under name := by
  rw [inTree, Bool.and_eq_true, Bool.and_eq_true, Bool.not_eq_true', List.isEmpty_eq_false_iff] at h
  obtain ⟨⟨hrelative, hne⟩, hstays⟩ := h
  show _ = joinSegments (segments name ++ resolveSegments p.names (segments specifier))
  rw [resolveSpecifier_of_isRelative hrelative, segments_under, resolveSegments, resolveSegments,
    List.dropLast_append_of_ne_nil hne, foldl_step_append _ hstays]

end ModulePath

/-! ### Requests within a tree -/

namespace Tree

/-- The paths that requests need: those that are requested, and those to which the definitions of
files lead. -/
inductive Needs (t : Tree) (requests : List String) : ModulePath → Prop
  /-- The path is requested. -/
  | request {id : String} (h : id ∈ requests) : Needs t requests (.ofId id)
  /-- A file whose path is needed depends on it. -/
  | follow {p : ModulePath} {n : Node} {s : String} (h : Needs t requests p)
      (hn : t.fileAt p.names = some n)
      (hs : s ∈ n.deps.define) : Needs t requests (p.resolve s)

/-- All that requests need lies in the tree: no specifier on the way leads out of it. -/
def SelfContained (t : Tree) (requests : List String) : Prop :=
  ∀ p n, t.Needs requests p → t.fileAt p.names = some n → ∀ s ∈ n.deps.define,
    inTree p.names s = true

/-- Requests are self-contained if their paths are among some whose specifiers lead to each
other. -/
theorem selfContained_of_closed {t : Tree} {requests : List String} {l : List ModulePath}
    (hrequests : ∀ id ∈ requests, ModulePath.ofId id ∈ l)
    (hl : ∀ p ∈ l, ∀ n ∈ t.fileAt p.names, ∀ s ∈ n.deps.define, inTree p.names s = true ∧
      p.resolve s ∈ l) : t.SelfContained requests := by
  have hmem : ∀ p, t.Needs requests p → p ∈ l := by
    intro p h
    induction h with
    | request h => exact hrequests _ h
    | follow _ hn hs ih => exact (hl _ ih _ hn _ hs).2
  exact fun p n hp hn s hs => (hl p (hmem p hp) n hn s hs).1

end Tree

/-- What names a module of a tree. -/
inductive Mention where
  /-- A request. -/
  | request (id : String)
  /-- A specifier in the definition of a module. -/
  | specifier (referrer : ModulePath) (text : String)
  deriving DecidableEq

namespace Mention

/-- The path that is meant. -/
def target : Mention → ModulePath
  | request id => .ofId id
  | specifier referrer text => referrer.resolve text

/-- What is noted if no source file is there, when the tree is mounted at an alias. -/
def under (name : String) : Mention → Dangling
  | request id => ⟨none, name ++ "/" ++ id⟩
  | specifier referrer text => ⟨some (referrer.under name), text⟩

theorem under_injective (name : String) : Function.Injective (under name) := by
  intro e e' h
  cases e with
  | request id =>
    cases e' with
    | request id' =>
      obtain ⟨-, htext⟩ := Dangling.mk.inj h
      rw [String.append_right_inj] at htext
      rw [htext]
    | specifier => simp [under] at h
  | specifier p s =>
    cases e' with
    | request => simp [under] at h
    | specifier p' s' =>
      obtain ⟨hp, rfl⟩ := Dangling.mk.inj h
      rw [ModulePath.under_injective name (Option.some.inj hp)]

/-- The visit that is to be made, when the tree is mounted at an alias. -/
def pending (name : String) (e : Mention) : Pending := ⟨e.under name, e.target.under name⟩

theorem pending_request (name id : String) :
    (request id).pending name = .ofRequest (name ++ "/" ++ id) := by
  rw [Pending.ofRequest, normalizeId, segments_append_slash]
  rfl

theorem pending_specifier {p : ModulePath} {s : String} (h : inTree p.names s = true)
    (name : String) : (specifier p s).pending name = .ofSpecifier (p.under name) s := by
  rw [Pending.ofSpecifier, ModulePath.resolveSpecifier_under h]
  rfl

/-- The specifiers of a file name paths of its tree. -/
theorem map_pending_specifier {p : ModulePath} {l : List String}
    (h : ∀ s ∈ l, inTree p.names s = true) (name : String) :
    (l.map (specifier p)).map (pending name) = l.map (.ofSpecifier (p.under name)) := by
  rw [List.map_map]
  exact List.map_congr_left fun s hs => pending_specifier (h s hs) name

end Mention

/-- A closure without its alias. -/
structure TreeClosure where
  /-- The paths of the modules. -/
  modules : List ModulePath := []
  /-- What names no source file. -/
  dangling : List Mention := []

/-- The closure when the tree is mounted at an alias. -/
def TreeClosure.under (name : String) (c : TreeClosure) : Closure where
  modules := c.modules.map (ModulePath.under name)
  dangling := c.dangling.map (Mention.under name)

theorem addNew_map {α β : Type} [DecidableEq α] [DecidableEq β] {f : α → β}
    (hf : Function.Injective f) (l : List α) (a : α) :
    addNew (l.map f) (f a) = (addNew l a).map f := by
  have hcontains : (l.map f).contains (f a) = l.contains a := by
    rw [Bool.eq_iff_iff, List.contains_iff_mem, List.contains_iff_mem, List.mem_map_of_injective hf]
  rw [addNew, addNew, hcontains]
  split
  · rfl
  · rw [List.map_append, List.map_singleton]

namespace TreeClosure

/-- What was met before is the same under all aliases, since different paths have different ids. -/
theorem mem_modules_under_iff (name : String) (c : TreeClosure) (e : Mention) :
    (e.pending name).id ∈ (c.under name).modules ↔ e.target ∈ c.modules :=
  List.mem_map_of_injective (ModulePath.under_injective name)

/-- So is what was noted before. -/
theorem under_note (name : String) (c : TreeClosure) (e : Mention) :
    under name { c with dangling := addNew c.dangling e }
      = { c.under name with dangling := addNew (c.under name).dangling (e.pending name).link } :=
  congrArg _ (addNew_map (Mention.under_injective name) _ _).symm

theorem under_enter (name : String) (c : TreeClosure) (e : Mention) :
    under name { c with modules := c.modules ++ [e.target] }
      = { c.under name with modules := (c.under name).modules ++ [(e.pending name).id] } := by
  simp [under, Mention.pending]

end TreeClosure

/-! ### The only tree -/

/-- The aliases when one tree is mounted, at one alias. -/
def AliasMap.only (top : List String) (t : Tree) : AliasMap :=
  Function.update (fun _ => none) top (some t)

theorem AliasMap.only_eq_some_iff {top path : List String} {t u : Tree} :
    AliasMap.only top t path = some u ↔ path = top ∧ t = u := by
  rw [only, Function.update_apply]
  split
  · next h => simp [h]
  · next h => simp [h]

namespace Namespace

/-- A name space shows the files of a tree under an alias. -/
def Shows (ns : Namespace) (name : String) (t : Tree) : Prop :=
  ∀ (p : ModulePath) (n : Node), ns.Backs (p.under name) n ↔ t.fileAt p.names = some n

/-- Where looking up ends in a tree, the file of the tree is found. -/
theorem backs_iff_fileAt {ns : Namespace} {id : String} {found : Option View}
    (hfound : ns.resolve id = .ok found) {t : Tree} (ht : t.Linked) {path : List String}
    (hplace : found.bind View.place = (t.descend? Tree.root path).map (Place.mk t)) {n : Node} :
    ns.Backs id n ↔ t.fileAt path = some n := by
  have hbacks : ns.Backs id n ↔ (∃ v, found = some v ∧ v.node? = .ok (some n)) ∧
      n.isFile = true := by
    simp only [Backs, Finds, hfound, Except.ok.injEq]
  rw [hbacks]
  cases hi : t.descend? Tree.root path with
  | none =>
    rw [hi, Option.map_none, Option.bind_eq_none_iff] at hplace
    have hfile : t.fileAt path = none := by rw [Tree.fileAt, hi]; rfl
    rw [hfile]
    constructor
    · rintro ⟨⟨v, hv, hn⟩, -⟩
      simp [View.node?, hplace v hv] at hn
    · simp
  | some i =>
    obtain ⟨m, hm⟩ := ht.exists_node?_of_path hi
    rw [hi, Option.map_some] at hplace
    obtain ⟨v, rfl, hv⟩ := Option.bind_eq_some_iff.1 hplace
    have hnode : v.node? = .ok (some m) := by
      simp only [View.node?, hv, Place.node, Tree.node, hm]; rfl
    rw [Tree.fileAt_of_descend? hi, hm]
    constructor
    · rintro ⟨⟨w, hw, hn⟩, hfile⟩
      obtain rfl := Option.some.inj hw
      obtain rfl := Option.some.inj (Except.ok.inj (hnode.symm.trans hn))
      rw [Option.filter_some, if_pos hfile]
    · intro h
      obtain ⟨hn, hfile⟩ := Option.filter_eq_some_iff.1 h
      obtain rfl := Option.some.inj hn
      exact ⟨⟨v, rfl, hnode⟩, hfile⟩

section

variable {name : String} {t : Tree}

/-- One call mounts one tree. -/
theorem mounted_attach (hname : segments name ≠ []) (t : Tree) :
    mounted [.attach name t] = .only (segments name) t := if_neg hname

/-- **The alias of the only tree shows its files.** -/
theorem Holds.shows {ns : Namespace} (hns : ns.Holds (.only (segments name) t)) (ht : t.Linked) :
    ns.Shows name t := by
  intro p n
  have hlinked : ∀ top u, AliasMap.only (segments name) t top = some u → u.Linked :=
    fun top u hu => (AliasMap.only_eq_some_iff.1 hu).2 ▸ ht
  obtain ⟨found, hfound, hlocates, -⟩ := (hns.projects hlinked).resolve (p.under name)
  -- the alias is the only one, so it governs all paths that it begins
  have hgoverns : AliasMap.Governs (.only (segments name) t) (segments (p.under name))
      (segments name) t := by
    rw [ModulePath.segments_under]
    refine ⟨List.prefix_append _ _, AliasMap.only_eq_some_iff.2 ⟨rfl, rfl⟩,
      fun other _ hother => ?_⟩
    obtain ⟨u, hu⟩ := Option.ne_none_iff_exists'.1 hother
    rw [(AliasMap.only_eq_some_iff.1 hu).1]
  exact backs_iff_fileAt hfound ht (hlocates.governed hgoverns (ModulePath.segments_under name p))

theorem Holds.sound_of_only {ns : Namespace} (hns : ns.Holds (.only (segments name) t))
    (ht : t.isIntact = true) : ns.Sound := fun b hb => by
  obtain ⟨-, htree⟩ := AliasMap.only_eq_some_iff.1 (hns.mounted_of_mem_bindings hb)
  rw [← htree]
  exact ht

end

/-! ### Traversals under two aliases -/

/-- **A traversal under one alias is a traversal under another one**, as long as it stays within the
tree: both are images of what happens within the tree. -/
theorem Visits.exists_moved {ns ns' : Namespace} {a b : String} {t : Tree} (hns : ns.Shows a t)
    (hns' : ns'.Shows b t) {requests : List String} (hself : t.SelfContained requests)
    {ps : List Pending} {c d : Closure} (h : ns.Visits ps c d) :
    ∀ {es : List Mention} {i : TreeClosure},
      ps = es.map (Mention.pending a) → c = i.under a → (∀ e ∈ es, t.Needs requests e.target) →
        ∃ j : TreeClosure, d = j.under a ∧
          ns'.Visits (es.map (Mention.pending b)) (i.under b) (j.under b) := by
  have hfresh : ∀ {e : Mention} {i : TreeClosure}, (e.pending a).id ∉ (i.under a).modules →
      (e.pending b).id ∉ (i.under b).modules := by
    intro e i hmet
    rwa [TreeClosure.mem_modules_under_iff, ← TreeClosure.mem_modules_under_iff a]
  induction h with
  | done c =>
    intro es i hes hi _
    rw [List.map_eq_nil_iff.1 hes.symm]
    exact ⟨i, hi, .done _⟩
  | seen hmet _ ih =>
    intro es i hes hi hneeds
    obtain ⟨e, rest, rfl, rfl, rfl⟩ := List.map_eq_cons_iff.1 hes.symm
    subst hi
    obtain ⟨j, hj, hvisits⟩ := ih rfl rfl fun f hf => hneeds f (List.mem_cons_of_mem _ hf)
    rw [TreeClosure.mem_modules_under_iff, ← TreeClosure.mem_modules_under_iff b] at hmet
    exact ⟨j, hj, .seen hmet hvisits⟩
  | missing hmet hnone _ ih =>
    intro es i hes hi hneeds
    obtain ⟨e, rest, rfl, rfl, rfl⟩ := List.map_eq_cons_iff.1 hes.symm
    subst hi
    obtain ⟨j, hj, hvisits⟩ := ih rfl (TreeClosure.under_note a i e).symm fun f hf =>
      hneeds f (List.mem_cons_of_mem _ hf)
    rw [TreeClosure.under_note] at hvisits
    refine ⟨j, hj, .missing (hfresh hmet) (fun n hn => ?_) hvisits⟩
    exact hnone n ((hns e.target n).2 ((hns' e.target n).1 hn))
  | @enter _ _ _ _ _ n hmet hn _ _ ihbelow ihrest =>
    intro es i hes hi hneeds
    obtain ⟨e, rest, rfl, rfl, rfl⟩ := List.map_eq_cons_iff.1 hes.symm
    subst hi
    have hfile : t.fileAt e.target.names = some n := (hns e.target n).1 hn
    have hneeded : t.Needs requests e.target := hneeds e List.mem_cons_self
    have hstays : ∀ s ∈ n.deps.define, inTree e.target.names s = true :=
      hself e.target n hneeded hfile
    obtain ⟨j, rfl, hbelow⟩ := ihbelow (Mention.map_pending_specifier hstays a).symm
      (TreeClosure.under_enter a i e).symm (by
        intro f hf
        obtain ⟨s, hs, rfl⟩ := List.mem_map.1 hf
        exact .follow hneeded hfile hs)
    obtain ⟨k, hk, hrest⟩ := ihrest rfl rfl fun f hf => hneeds f (List.mem_cons_of_mem _ hf)
    rw [Mention.map_pending_specifier hstays, TreeClosure.under_enter] at hbelow
    exact ⟨k, hk, .enter (hfresh hmet) ((hns' e.target n).2 hfile) hbelow hrest⟩

end Namespace

/-! ### Closures under two aliases -/

/-- The list with `m` in place of `l` at its beginning. -/
def replaceLeading {α : Type} [DecidableEq α] (l m whole : List α) : List α :=
  if l <+: whole then m ++ whole.drop l.length else whole

theorem replaceLeading_append {α : Type} [DecidableEq α] (l m rest : List α) :
    replaceLeading l m (l ++ rest) = m ++ rest := by
  rw [replaceLeading, if_pos (List.prefix_append l rest), List.drop_left]

/-- The id with the segments of one alias in place of those of another one at its beginning. -/
def movedId (a b id : String) : String :=
  joinSegments (replaceLeading (segments a) (segments b) (segments id))

/-- The text with one alias as written in place of another one at its beginning. -/
def movedText (a b text : String) : String := .ofList (replaceLeading a.toList b.toList text.toList)

/-- What is noted, with one alias in place of another one: in the id of the referrer, or in the
request. -/
def Dangling.moved (a b : String) (d : Dangling) : Dangling :=
  match d.referrer with
  | some referrer => ⟨some (movedId a b referrer), d.specifier⟩
  | none => ⟨none, movedText a b d.specifier⟩

/-- The closure with one alias in place of another one. -/
def Closure.moved (a b : String) (c : Closure) : Closure where
  modules := c.modules.map (movedId a b)
  dangling := c.dangling.map (Dangling.moved a b)

theorem movedId_under (a b : String) (p : ModulePath) : movedId a b (p.under a) = p.under b := by
  rw [movedId, ModulePath.segments_under, replaceLeading_append, ModulePath.under]

theorem movedText_append (a b text : String) : movedText a b (a ++ text) = b ++ text := by
  rw [movedText, String.toList_append, replaceLeading_append, ← String.toList_append,
    String.ofList_toList]

theorem Dangling.moved_under (a b : String) (e : Mention) : (e.under a).moved a b = e.under b := by
  cases e with
  | request id =>
    show Dangling.mk none (movedText a b (a ++ "/" ++ id)) = ⟨none, b ++ "/" ++ id⟩
    rw [String.append_assoc, movedText_append, String.append_assoc]
  | specifier p s =>
    show Dangling.mk (some (movedId a b (p.under a))) s = ⟨some (p.under b), s⟩
    rw [movedId_under]

theorem TreeClosure.moved_under (a b : String) (j : TreeClosure) :
    (j.under a).moved a b = j.under b := by
  rw [Closure.moved, under, under, List.map_map, List.map_map]
  congr 1
  · exact List.map_congr_left fun p _ => movedId_under a b p
  · exact List.map_congr_left fun e _ => Dangling.moved_under a b e

namespace Namespace

/-- **The modules of a tree behave the same under any alias.**  Requests that stay within the only
tree that is mounted have the same closure under both aliases, with the one in place of the other in
the ids of modules and referrers and in the requests that are reported. -/
theorem expand_moved {t : Tree} (ht : t.check = .ok ()) {a b : String} {calls calls' : List Call}
    (ha : mounted calls = .only (segments a) t) (hb : mounted calls' = .only (segments b) t)
    {requests : List String} (hself : t.SelfContained requests) :
    ∃ c, (run calls).expand (requests.map fun id => a ++ "/" ++ id) = .ok c ∧
      (run calls').expand (requests.map fun id => b ++ "/" ++ id) = .ok (c.moved a b) := by
  have hintact : t.isIntact = true := by rw [Tree.isIntact, ht]; rfl
  have hlinked : t.Linked := Tree.linked_of_check ht
  have hholds : (run calls).Holds (.only (segments a) t) := ha ▸ holds_run calls
  have hholds' : (run calls').Holds (.only (segments b) t) := hb ▸ holds_run calls'
  obtain ⟨c, hc, hvisits⟩ :=
    exists_expand (hholds.sound_of_only hintact) (requests.map fun id => a ++ "/" ++ id)
  obtain ⟨c', hc', hvisits'⟩ :=
    exists_expand (hholds'.sound_of_only hintact) (requests.map fun id => b ++ "/" ++ id)
  have hpending : ∀ name, (requests.map fun id => name ++ "/" ++ id).map .ofRequest
      = (requests.map Mention.request).map (Mention.pending name) := by
    intro name
    rw [List.map_map, List.map_map]
    exact List.map_congr_left fun id _ => (Mention.pending_request name id).symm
  obtain ⟨j, rfl, hmoved⟩ :=
    hvisits.exists_moved (hholds.shows hlinked) (hholds'.shows hlinked) hself
    (hpending a) (i := {}) rfl (by
      intro e he
      obtain ⟨id, hid, rfl⟩ := List.mem_map.1 he
      exact .request hid)
  rw [← hpending b] at hmoved
  refine ⟨j.under a, hc, ?_⟩
  rw [hc', hvisits'.deterministic hmoved, TreeClosure.moved_under]

/-- A tree with the files `a` and `sub/b`, which depend on each other. -/
def crossedTree : Tree :=
  ⟨#[{ name := "src", children := .ofList [("a", 1), ("sub", 2)] },
    { name := "a", parent := some 0, deps := { define := ["./sub/b", "./gone"] },
      modified := some 1 },
    { name := "sub", parent := some 0, children := .ofList [("b", 3)] },
    { name := "b", parent := some 2, deps := { define := ["../a", "./../sub/b"] },
      modified := some 1 }]⟩

theorem expand_crossedTree : crossedTree.SelfContained ["a", "none"] ∧
    (run [.attach "x" crossedTree]).expand ["x/a", "x/none"]
        = .ok ⟨["x/a", "x/sub/b"], [⟨some "x/a", "./gone"⟩, ⟨none, "x/none"⟩]⟩ ∧
      (run [.attach "./p//q" crossedTree]).expand ["./p//q/a", "./p//q/none"]
        = .ok ⟨["p/q/a", "p/q/sub/b"], [⟨some "p/q/a", "./gone"⟩, ⟨none, "./p//q/none"⟩]⟩ := by
  have hself : crossedTree.SelfContained ["a", "none"] :=
    Tree.selfContained_of_closed (l := ["a", "none", "sub/b", "gone"].map .ofId) (by decide +kernel)
      (by decide +kernel)
  have hfirst : (run [.attach "x" crossedTree]).expand ["x/a", "x/none"]
      = .ok ⟨["x/a", "x/sub/b"], [⟨some "x/a", "./gone"⟩, ⟨none, "x/none"⟩]⟩ := by decide +kernel
  obtain ⟨c, hc, hmoved⟩ :=
    expand_moved (t := crossedTree) (a := "x") (b := "./p//q") (by decide +kernel)
    (mounted_attach (by decide +kernel) _) (mounted_attach (by decide +kernel) _) hself
  obtain rfl := Except.ok.inj (hc.symm.trans hfirst)
  refine ⟨hself, hfirst, hmoved.trans ?_⟩
  decide +kernel

end Namespace

end ModuleAtlas
