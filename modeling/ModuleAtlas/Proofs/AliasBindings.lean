import ModuleAtlas.Proofs.AliasDirs

/-!
# Name spaces as finite maps

A name space binds lists of segments to trees.  Mounting binds one list and removing takes one
binding away, whatever is bound above or below, and the aliases are the bound lists in their order.
Since no directory stays without a tree at it or below it, the directories are known by the
bindings: two histories that end in the same bindings leave the same name space.

## Main definitions

* `Dir.take`, `Namespace.take` — removing in one pass, with the tree that was there.
* `Namespace.binding` — the tree that is bound to a list of segments.
* `Namespace.IsMap` — the laws of a finite map.

## Main results

* `Dir.take_eq` — one pass down removes what a look before it finds.
* `Dir.Kept.eq_of_mountAt` — **directories in order are known by what is mounted in them.**
* `Namespace.isMap_run` — **after any calls a name space is a finite map, and it is known by its
  bindings.**
-/

namespace ModuleAtlas

namespace Dir

/-! ### Removing in one pass -/

/-- Removes the tree at the given segments in one pass down, and returns it.  Directories that this
leaves vacant are removed on the way back. -/
def take : List String → Dir → Option Tree × Dir
  | [], d => (d.mount, mk none d.children)
  | s :: rest, d =>
    match d.child? s with
    | none => (none, d)
    | some below =>
      let (taken, remaining) := take rest below
      (taken, mk d.mount
        (if remaining.isVacant then Ordered.unbind s d.children
        else Ordered.bind s remaining d.children))

/-- One pass down returns the tree that is mounted at the segments, and removes it. -/
theorem take_eq {path : List String} :
    ∀ d : Dir, d.take path = (d.mountAt path, d.detach path) := by
  induction path with
  | nil => intro d; rfl
  | cons s path ih =>
    intro d
    rw [take, detach, mountAt_cons]
    cases hc : d.child? s with
    | none => rfl
    | some c =>
      dsimp only
      rw [ih, Option.bind_some]

/-! ### Directories known by their trees -/

variable {d e : Dir}

/-- A directory below another one is there in every directory in order that has the same trees, and
has the same trees there. -/
theorem Kept.exists_child_of_mountAt (hd : d.Kept) (h : ∀ path, d.mountAt path = e.mountAt path)
    {s : String} {c : Dir} (hc : d.child? s = some c) :
    ∃ c', e.child? s = some c' ∧ ∀ path, c.mountAt path = c'.mountAt path := by
  obtain ⟨hkept, hoccupied, -⟩ := hd.child hc
  obtain ⟨path, hpath⟩ := hkept.exists_mountAt hoccupied
  have hbelow : ∀ path, c.mountAt path = (e.child? s).bind fun c' => c'.mountAt path := by
    intro path
    rw [← mountAt_cons, ← h, mountAt_cons, hc, Option.bind_some]
  cases hc' : e.child? s with
  | none => rw [hbelow, hc'] at hpath; exact absurd rfl hpath
  | some c' => exact ⟨c', rfl, fun path => by rw [hbelow, hc', Option.bind_some]⟩

/-- **Directories in order are known by what is mounted in them.** -/
theorem Kept.eq_of_mountAt (hd : d.Kept) :
    ∀ {e : Dir}, e.Kept → (∀ path, d.mountAt path = e.mountAt path) → d = e := by
  induction hd with
  | @mk mount children increasing proper occupied below ih =>
    rintro ⟨mount', children'⟩ he h
    have hd : (Dir.mk mount children).Kept := .mk increasing proper occupied below
    have hmem : ∀ {s c}, (Dir.mk mount children).child? s = some c ↔ (s, c) ∈ children :=
      Ordered.lookup_eq_some_iff_mem increasing
    have hmem' : ∀ {s c}, (Dir.mk mount' children').child? s = some c ↔ (s, c) ∈ children' :=
      Ordered.lookup_eq_some_iff_mem he.increasing
    have hmount : mount = mount' := h []
    have hchildren : children = children' := by
      refine Ordered.eq_of_mem_iff increasing
        (show Ordered.Increasing children' from he.increasing) ?_
      rintro ⟨s, c⟩
      rw [← hmem, ← hmem']
      constructor
      · intro hc
        obtain ⟨c', hc', hsame⟩ := hd.exists_child_of_mountAt h hc
        have heq : c = c' := ih _ (hmem.1 hc) (he.child hc').1 hsame
        rwa [heq]
      · intro hc
        obtain ⟨c', hc', hsame⟩ := he.exists_child_of_mountAt (fun path => (h path).symm) hc
        have heq : c' = c := ih _ (hmem.1 hc') (he.child hc).1 fun path => (hsame path).symm
        rwa [← heq]
    rw [hmount, hchildren]

end Dir

namespace Namespace

/-- The tree that is bound to a list of segments. -/
def binding (ns : Namespace) (path : List String) : Option Tree := ns.root.mountAt path

/-- Removes what is mounted at an alias, and returns it. -/
def take (ns : Namespace) (name : String) : Option Tree × Namespace :=
  ((ns.root.take (segments name)).1, ⟨(ns.root.take (segments name)).2⟩)

/-- Removing in one pass is looking up and removing. -/
theorem take_eq (ns : Namespace) (name : String) :
    ns.take name = (ns.tree? name, ns.detach name) := by
  rw [take, Dir.take_eq]
  rfl

/-- The laws of a finite map from lists of segments to trees. -/
structure IsMap (ns : Namespace) : Prop where
  /-- Lists of proper segments are bound, and not the empty one. -/
  keys : ∀ path, ns.binding path ≠ none → path ≠ [] ∧ ∀ s ∈ path, ProperSegment s
  /-- Mounting at an alias binds its segments.  It fails exactly if there are none, and then changes
  nothing. -/
  attach : ∀ name t,
    match ns.attach name t with
    | .ok after =>
        segments name ≠ [] ∧ after.binding = Function.update ns.binding (segments name) (some t)
    | .error e => segments name = [] ∧ e = .configuration s!"Alias name '{name}' is empty" ∧
      ns.perform (.attach name t) = ns
  /-- Removing returns what is bound to the segments of an alias, and takes that binding away. -/
  take : ∀ name, (ns.take name).1 = ns.binding (segments name) ∧
    (ns.take name).2.binding = Function.update ns.binding (segments name) none
  /-- The aliases are the bound lists, joined. -/
  aliases : ∀ name, name ∈ ns.aliases ↔ ∃ path, ns.binding path ≠ none ∧ joinSegments path = name
  /-- They come in the strict order of their segments, so each of them comes once. -/
  order : ns.aliases.Pairwise fun a b => compare (segments a) (segments b) = .lt
  /-- Every directory but the one at the top has a tree or directories below. -/
  occupied : ∀ path d, path ≠ [] → ns.root.at? path = some d → d.mount ≠ none ∨ d.children ≠ []

variable {ns : Namespace} {m : AliasMap}

theorem Holds.binding_eq (h : ns.Holds m) : ns.binding = m := funext h.mountAt

/-- The segments of a bound list are proper. -/
theorem Holds.properSegment (h : ns.Holds m) {path : List String} (hpath : ns.binding path ≠ none) :
    ∀ s ∈ path, ProperSegment s := by
  obtain ⟨t, ht⟩ := Option.ne_none_iff_exists'.1 hpath
  obtain ⟨d, hd, -⟩ := Option.bind_eq_some_iff.1 ht
  exact (h.kept.at? hd).2.2

/-- The bound lists are those of the listed trees. -/
theorem Holds.exists_mem_bindings_iff (h : ns.Holds m) {path : List String} :
    (∃ b ∈ ns.bindings, b.1 = path) ↔ ns.binding path ≠ none := by
  rw [h.binding_eq, ← h.aliases.2, List.mem_map]

theorem Holds.isMap (h : ns.Holds m) : ns.IsMap where
  keys := by
    intro path hpath
    refine ⟨?_, h.properSegment hpath⟩
    rintro rfl
    rw [h.binding_eq] at hpath
    exact hpath h.top
  attach := by
    intro name t
    have hafter := (h.perform (.attach name t)).binding_eq
    by_cases hname : segments name = []
    · rw [attach_of_segments_eq_nil hname]
      refine ⟨hname, rfl, ?_⟩
      rw [Namespace.perform, attach_of_segments_eq_nil hname]
    · have hattach : ns.attach name t = .ok (ns.perform (.attach name t)) := by
        simp [Namespace.perform, Namespace.attach, hname]
      rw [hattach]
      refine ⟨hname, ?_⟩
      rw [hafter, Call.mounting, if_neg hname, h.binding_eq]
  take := by
    intro name
    rw [take_eq]
    refine ⟨rfl, ?_⟩
    rw [h.binding_eq]
    exact (h.perform (.detach name)).binding_eq
  aliases := by
    intro name
    rw [Namespace.aliases, List.mem_map]
    constructor
    · rintro ⟨b, hb, rfl⟩
      exact ⟨b.1, h.exists_mem_bindings_iff.1 ⟨b, hb, rfl⟩, rfl⟩
    · rintro ⟨path, hpath, rfl⟩
      obtain ⟨b, hb, rfl⟩ := h.exists_mem_bindings_iff.2 hpath
      exact ⟨b, hb, rfl⟩
  order := by
    rw [Namespace.aliases, List.pairwise_map]
    refine (h.kept.increasing_bindings []).imp_of_mem fun {a b} ha hb hlt => ?_
    have hsegments : ∀ c ∈ ns.bindings, segments (joinSegments c.1) = c.1 := fun c hc =>
      segments_joinSegments (h.properSegment (h.exists_mem_bindings_iff.1 ⟨c, hc, rfl⟩))
    rwa [hsegments a ha, hsegments b hb]
  occupied := by
    intro path d hpath hd
    have hoccupied := (h.kept.at? hd).2.1 hpath
    rw [← not_and_or]
    rintro ⟨hmount, hchildren⟩
    rw [Dir.isVacant, hmount, hchildren] at hoccupied
    cases hoccupied

/-- Name spaces that have the same trees are the same. -/
theorem Holds.eq_of_holds {ns' : Namespace} (h : ns.Holds m) (h' : ns'.Holds m) : ns = ns' := by
  have hroot : ns.root = ns'.root := h.kept.eq_of_mountAt h'.kept fun path => by
    rw [h.mountAt, h'.mountAt]
  cases ns
  cases ns'
  exact congrArg Namespace.mk hroot

/-- **After any calls a name space is a finite map, and it is known by its bindings.**  Its bindings
are those that the calls have left, and where other calls leave the same bindings they leave the
same directories, in which every id leads to the same position with the same children. -/
theorem isMap_run (calls : List Call) : (run calls).IsMap ∧ (run calls).binding = mounted calls ∧
    ∀ others, ((run others).binding = (run calls).binding ↔ (run others).root = (run calls).root) ∧
      ((run others).binding = (run calls).binding ↔
        ∀ id, (run others).resolve id = (run calls).resolve id) := by
  have hcalls := holds_run calls
  refine ⟨hcalls.isMap, hcalls.binding_eq, fun others => ?_⟩
  have hothers := holds_run others
  have hknown : (run others).binding = (run calls).binding → run others = run calls := by
    intro h
    rw [hothers.binding_eq, hcalls.binding_eq] at h
    exact (h ▸ hothers).eq_of_holds hcalls
  have hroots : (run others).root = (run calls).root →
      (run others).binding = (run calls).binding := by
    intro h
    funext path
    rw [binding, h, binding]
  refine ⟨⟨fun h => congrArg root (hknown h), hroots⟩, fun h id => by
    rw [hknown h], fun h => hroots ?_⟩
  -- the position at the top has all directories
  have htop := h ""
  rw [resolve_of_segments_eq_nil segments_empty, resolve_of_segments_eq_nil segments_empty] at htop
  exact Option.some.inj (congrArg View.dir (Option.some.inj (Except.ok.inj htop)))

end Namespace

end ModuleAtlas
