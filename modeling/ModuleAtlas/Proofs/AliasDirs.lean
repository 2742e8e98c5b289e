import Mathlib.Logic.Function.Basic
import ModuleAtlas.Namespace.Size
import ModuleAtlas.Proofs.MapLaws
import ModuleAtlas.Proofs.Resolution

/-!
# Directories of aliases

Mounting and removing trees at aliases changes what is mounted at one list of segments and nowhere
else, and it keeps the directories in order: their names increase, and no directory is there without
a tree at it or below it.  So after any calls a name space is described by what was mounted last at
each alias.

## Main definitions

* `Dir.mountAt` — the tree that is mounted at a list of segments.
* `Dir.Kept` — directories in name order, none of them vacant.
* `Namespace.Call`, `Namespace.run` — calls that mount and remove trees, refused ones included.
* `AliasMap`, `Namespace.mounted` — the tree of each alias, as the calls tell it.
* `Namespace.Holds` — a name space has the trees of a map of aliases.

## Main results

* `Dir.mountAt_attach`, `Dir.mountAt_detach` — mounting and removing change one place.
* `Dir.Kept.isSome_at?_iff` — a directory is there exactly above the mounted trees.
* `Dir.Kept.increasing_bindings` — the mounted trees are listed in the order of their segments.
* `Namespace.holds_run` — **after any calls a name space has the trees that were mounted last.**
* `Namespace.Holds.aliases` — each alias is listed once.
-/

namespace ModuleAtlas

namespace Dir

/-! ### Mounting and removing -/

theorem at?_append (d : Dir) (path more : List String) :
    d.at? (path ++ more) = (d.at? path).bind fun e => e.at? more := by
  rw [at?, List.foldlM_append]
  rfl

/-- The tree that is mounted at a list of segments. -/
def mountAt (d : Dir) (path : List String) : Option Tree := (d.at? path).bind mount

@[simp] theorem mountAt_nil (d : Dir) : d.mountAt [] = d.mount := rfl

theorem mountAt_cons (d : Dir) (s : String) (path : List String) :
    d.mountAt (s :: path) = (d.child? s).bind fun c => c.mountAt path := by
  rw [mountAt, at?_cons, Option.bind_assoc]
  rfl

@[simp] theorem mountAt_vacant (path : List String) : vacant.mountAt path = none := by
  cases path with
  | nil => rfl
  | cons s path => rw [mountAt_cons]; rfl

/-- Nothing is mounted at or below a vacant directory. -/
theorem mountAt_of_isVacant {d : Dir} (h : d.isVacant = true) (path : List String) :
    d.mountAt path = none := by
  obtain ⟨mount, children⟩ := d
  obtain ⟨rfl, rfl⟩ : mount = none ∧ children = [] := by simpa [isVacant] using h
  exact mountAt_vacant path

theorem child?_attach (t : Tree) (s : String) (rest : List String) (d : Dir) (s' : String) :
    (attach t (s :: rest) d).child? s'
      = if s' = s then some (attach t rest ((d.child? s).getD vacant)) else d.child? s' := by
  rw [child?, attach, children_mk, Ordered.lookup_bind]
  simp only [Std.LawfulEqOrd.compare_eq_iff_eq]
  rfl

/-- Mounting a tree changes what is mounted at one place. -/
theorem mountAt_attach (t : Tree) {path : List String} : ∀ (d : Dir) (q : List String),
    (attach t path d).mountAt q = if q = path then some t else d.mountAt q := by
  induction path with
  | nil =>
    intro d q
    cases q with
    | nil => rfl
    | cons s q => rw [if_neg (List.cons_ne_nil _ _), mountAt_cons, mountAt_cons]; rfl
  | cons s path ih =>
    intro d q
    cases q with
    | nil => rfl
    | cons s' q =>
      rw [mountAt_cons, child?_attach]
      by_cases hs : s' = s
      · rw [if_pos hs, Option.bind_some, ih, hs, mountAt_cons]
        simp only [List.cons.injEq, true_and]
        cases d.child? s with
        | none => rw [Option.getD_none, mountAt_vacant]; rfl
        | some c => rfl
      · rw [if_neg hs, if_neg fun h => hs (List.cons.inj h).1, mountAt_cons]

/-! ### Directories in order -/

/-- The names below increase and are proper segments, and no directory below is vacant. -/
inductive Kept : Dir → Prop where
  /-- A directory is in order if those below are. -/
  | mk {mount : Option Tree} {children : List (String × Dir)}
      (increasing : Ordered.Increasing children) (proper : ∀ p ∈ children, ProperSegment p.1)
      (occupied : ∀ p ∈ children, p.2.isVacant = false) (below : ∀ p ∈ children, Kept p.2) :
      Kept (mk mount children)

theorem kept_vacant : vacant.Kept := .mk .nil (by simp) (by simp) (by simp)

variable {d : Dir}

theorem Kept.increasing (hd : d.Kept) : Ordered.Increasing d.children := by
  cases hd with
  | mk increasing => exact increasing

/-- Whatever is mounted here, the directories below are in order. -/
theorem Kept.of_children (hd : d.Kept) (mount : Option Tree) : (Dir.mk mount d.children).Kept := by
  cases hd with
  | mk increasing proper occupied below => exact .mk increasing proper occupied below

theorem mem_of_child? {s : String} {c : Dir} (h : d.child? s = some c) : (s, c) ∈ d.children := by
  obtain ⟨s', hmem, he⟩ := Ordered.exists_mem_of_lookup h
  rwa [Std.LawfulEqOrd.compare_eq_iff_eq.1 he]

theorem Kept.child (hd : d.Kept) {s : String} {c : Dir} (h : d.child? s = some c) :
    c.Kept ∧ c.isVacant = false ∧ ProperSegment s := by
  have hmem := mem_of_child? h
  cases hd with
  | mk increasing proper occupied below => exact ⟨below _ hmem, occupied _ hmem, proper _ hmem⟩

/-- Binding a directory that is in order and not vacant leaves all in order. -/
theorem Kept.bind (hd : d.Kept) {s : String} {c : Dir} (hs : ProperSegment s) (hc : c.Kept)
    (hoccupied : c.isVacant = false) : (Dir.mk d.mount (Ordered.bind s c d.children)).Kept := by
  obtain ⟨mount, children⟩ := d
  cases hd with
  | mk increasing proper occupied below =>
    have hpair : ∀ p ∈ Ordered.bind s c children, p = (s, c) ∨ p ∈ children := by
      intro p hp
      rcases Ordered.mem_bind_cases increasing hp with (h | ⟨h, he, -⟩) | ⟨h, -⟩
      · exact .inl h
      · exact .inl (Prod.ext (Std.LawfulEqOrd.compare_eq_iff_eq.1 he).symm h)
      · exact .inr h
    refine .mk (Ordered.increasing_bind increasing s c) ?_ ?_ ?_
    · intro p hp
      rcases hpair p hp with rfl | hp
      · exact hs
      · exact proper p hp
    · intro p hp
      rcases hpair p hp with rfl | hp
      · exact hoccupied
      · exact occupied p hp
    · intro p hp
      rcases hpair p hp with rfl | hp
      · exact hc
      · exact below p hp

theorem Kept.unbind (hd : d.Kept) (s : String) :
    (Dir.mk d.mount (Ordered.unbind s d.children)).Kept := by
  obtain ⟨mount, children⟩ := d
  cases hd with
  | mk increasing proper occupied below =>
    have hpair : ∀ p ∈ Ordered.unbind s children, p ∈ children :=
      fun p hp => Ordered.mem_of_mem_unbind hp
    exact .mk (Ordered.increasing_unbind increasing s) (fun p hp => proper p (hpair p hp))
      (fun p hp => occupied p (hpair p hp)) fun p hp => below p (hpair p hp)

theorem isVacant_attach (t : Tree) (path : List String) (d : Dir) :
    (attach t path d).isVacant = false := by
  cases path with
  | nil => rfl
  | cons s path =>
    have hmount : (attach t (s :: path) d).mountAt (s :: path) = some t := by
      rw [mountAt_attach, if_pos rfl]
    rw [← Bool.not_eq_true]
    intro hvacant
    rw [mountAt_of_isVacant hvacant] at hmount
    simp at hmount

theorem kept_attach (t : Tree) {path : List String} :
    ∀ {d : Dir}, d.Kept → (∀ s ∈ path, ProperSegment s) → (attach t path d).Kept := by
  induction path with
  | nil => intro d hd _; exact hd.of_children _
  | cons s path ih =>
    intro d hd hpath
    have hbelow : ((d.child? s).getD vacant).Kept := by
      cases hc : d.child? s with
      | none => exact kept_vacant
      | some c => exact (hd.child hc).1
    exact hd.bind (hpath s List.mem_cons_self) (ih hbelow fun s' hs' =>
      hpath s' (List.mem_cons_of_mem _ hs'))
      (isVacant_attach t path _)

theorem kept_detach {path : List String} : ∀ {d : Dir}, d.Kept → (detach path d).Kept := by
  induction path with
  | nil => intro d hd; exact hd.of_children _
  | cons s path ih =>
    intro d hd
    rw [detach]
    split
    · exact hd
    · next below hbelow =>
      have hkept := ih (hd.child hbelow).1
      dsimp only
      split
      · exact hd.unbind s
      · next hoccupied => exact hd.bind (hd.child hbelow).2.2 hkept (by simpa using hoccupied)

theorem child?_detach (hd : d.Kept) {s : String} {c : Dir} (hc : d.child? s = some c)
    (rest : List String) (s' : String) :
    (detach (s :: rest) d).child? s'
      = if s' = s then (if (detach rest c).isVacant then none else some (detach rest c))
        else d.child? s' := by
  rw [child?, detach, hc]
  dsimp only
  rw [children_mk]
  split
  · rw [Ordered.lookup_unbind hd.increasing]
    simp only [Std.LawfulEqOrd.compare_eq_iff_eq]
    rfl
  · rw [Ordered.lookup_bind]
    simp only [Std.LawfulEqOrd.compare_eq_iff_eq]
    rfl

/-- Removing a tree changes what is mounted at one place. -/
theorem mountAt_detach {path : List String} : ∀ {d : Dir}, d.Kept → ∀ q,
    (detach path d).mountAt q = if q = path then none else d.mountAt q := by
  induction path with
  | nil =>
    intro d _ q
    cases q with
    | nil => rfl
    | cons s q => rw [if_neg (List.cons_ne_nil _ _), mountAt_cons, mountAt_cons]; rfl
  | cons s path ih =>
    intro d hd q
    cases hc : d.child? s with
    | none =>
      have hsame : detach (s :: path) d = d := by rw [detach, hc]
      rw [hsame]
      split
      · next hq => rw [hq, mountAt_cons, hc]; rfl
      · rfl
    | some c =>
      cases q with
      | nil =>
        rw [mountAt_nil, mountAt_nil, detach, hc]
        rfl
      | cons s' q =>
        rw [mountAt_cons, child?_detach hd hc]
        by_cases hs : s' = s
        · -- a directory that is left vacant has nothing mounted below, as it should be
          have hbelow := ih (hd.child hc).1 q
          rw [if_pos hs, hs, mountAt_cons, hc, Option.bind_some]
          simp only [List.cons.injEq, true_and]
          rw [← hbelow]
          split
          · next hvacant => rw [mountAt_of_isVacant hvacant]; rfl
          · rfl
        · rw [if_neg hs, if_neg fun h => hs (List.cons.inj h).1, mountAt_cons]

/-! ### Directories above mounted trees -/

theorem Kept.at? {path : List String} : ∀ {d e : Dir}, d.Kept → d.at? path = some e →
    e.Kept ∧ (path ≠ [] → e.isVacant = false) ∧ ∀ s ∈ path, ProperSegment s := by
  induction path with
  | nil => intro d e hd h; rw [← Option.some.inj h]; exact ⟨hd, by simp, by simp⟩
  | cons s path ih =>
    intro d e hd h
    rw [at?_cons] at h
    obtain ⟨c, hc, h⟩ := Option.bind_eq_some_iff.1 h
    obtain ⟨hkept, hoccupied, hs⟩ := hd.child hc
    obtain ⟨he, hnonvacant, hproper⟩ := ih hkept h
    refine ⟨he, fun _ => ?_, ?_⟩
    · cases path with
      | nil => rw [← Option.some.inj h]; exact hoccupied
      | cons s' path => exact hnonvacant (by simp)
    · intro s' hs'
      rcases List.mem_cons.1 hs' with rfl | hs'
      · exact hs
      · exact hproper s' hs'

/-- A tree is mounted at or below a directory that is not vacant. -/
theorem Kept.exists_mountAt (hd : d.Kept) (h : d.isVacant = false) :
    ∃ path, d.mountAt path ≠ none := by
  induction hd with
  | @mk mount children increasing proper occupied below ih =>
    cases mount with
    | some t => exact ⟨[], by simp⟩
    | none =>
      cases children with
      | nil => simp [isVacant] at h
      | cons p children =>
        obtain ⟨path, hpath⟩ := ih p List.mem_cons_self (occupied p List.mem_cons_self)
        have hchild : (Dir.mk none (p :: children)).child? p.1 = some p.2 :=
          (Ordered.lookup_eq_some_iff_mem increasing).2 List.mem_cons_self
        exact ⟨p.1 :: path, by rwa [mountAt_cons, hchild]⟩

/-- A directory is there exactly above the mounted trees, and at the top. -/
theorem Kept.isSome_at?_iff (hd : d.Kept) {path : List String} :
    (d.at? path).isSome ↔ path = [] ∨ ∃ name, path <+: name ∧ d.mountAt name ≠ none := by
  constructor
  · intro h
    obtain ⟨e, he⟩ := Option.isSome_iff_exists.1 h
    by_cases hpath : path = []
    · exact .inl hpath
    · obtain ⟨hkept, hoccupied, -⟩ := hd.at? he
      obtain ⟨more, hmore⟩ := hkept.exists_mountAt (hoccupied hpath)
      refine .inr ⟨path ++ more, List.prefix_append _ _, ?_⟩
      rwa [mountAt, at?_append, he]
  · rintro (rfl | ⟨name, ⟨more, rfl⟩, hmount⟩)
    · rfl
    · rw [mountAt, at?_append] at hmount
      cases he : d.at? path with
      | none => rw [he] at hmount; exact absurd rfl hmount
      | some e => rfl

/-! ### Sizes -/

theorem size_le_sizeOfAll {p : String × Dir} {children : List (String × Dir)} (h : p ∈ children) :
    p.2.size ≤ sizeOfAll children := by
  induction children with
  | nil => simp at h
  | cons q children ih =>
    rw [sizeOfAll]
    rcases List.mem_cons.1 h with rfl | h
    · omega
    · have hle := ih h
      omega

theorem size_lt_of_child? {s : String} {c : Dir} (h : d.child? s = some c) : c.size < d.size := by
  obtain ⟨mount, children⟩ := d
  have hle : c.size ≤ sizeOfAll children := size_le_sizeOfAll (mem_of_child? h)
  rw [size]
  omega

theorem size_lt_of_mount {t : Tree} (h : d.mount = some t) : t.size < d.size := by
  obtain ⟨mount, children⟩ := d
  obtain rfl : mount = some t := h
  rw [size, Option.map_some, Option.getD_some]
  omega

/-- A directory further down is smaller by at least the number of steps. -/
theorem size_add_length_le {path : List String} : ∀ {d e : Dir}, d.at? path = some e →
    e.size + path.length ≤ d.size := by
  induction path with
  | nil => intro d e h; rw [← Option.some.inj h]; exact Nat.le_refl _
  | cons s path ih =>
    intro d e h
    rw [at?_cons] at h
    obtain ⟨c, hc, h⟩ := Option.bind_eq_some_iff.1 h
    have hbelow := ih h
    have hstep := size_lt_of_child? hc
    rw [List.length_cons]
    omega

/-! ### Listed trees -/

theorem exists_of_mem_bindingsOf {place : List String} {children : List (String × Dir)}
    {b : List String × Tree} (h : b ∈ bindingsOf place children) : ∃ p ∈ children,
      b ∈ p.2.mount.toList.map (place ++ [p.1], ·) ++ p.2.bindings (place ++ [p.1]) := by
  induction children with
  | nil => simp [bindingsOf] at h
  | cons p children ih =>
    obtain ⟨s, c⟩ := p
    rw [bindingsOf] at h
    rcases List.mem_append.1 h with h | h
    · exact ⟨(s, c), List.mem_cons_self, h⟩
    · obtain ⟨q, hq, hb⟩ := ih h
      exact ⟨q, List.mem_cons_of_mem _ hq, hb⟩

/-- What is listed is mounted where the list says. -/
theorem Kept.mountAt_of_mem_bindings (hd : d.Kept) {b : List String × Tree} :
    ∀ {place : List String},
    b ∈ d.bindings place → ∃ path, path ≠ [] ∧ b.1 = place ++ path ∧ d.mountAt path = some b.2 := by
  induction hd with
  | @mk mount children increasing proper occupied below ih =>
    intro place hb
    rw [bindings] at hb
    obtain ⟨p, hp, hb⟩ := exists_of_mem_bindingsOf hb
    have hchild : (Dir.mk mount children).child? p.1 = some p.2 :=
      (Ordered.lookup_eq_some_iff_mem increasing).2 hp
    rcases List.mem_append.1 hb with hb | hb
    · obtain ⟨t, ht, rfl⟩ := List.mem_map.1 hb
      refine ⟨[p.1], by simp, rfl, ?_⟩
      rw [mountAt_cons, hchild, Option.bind_some, mountAt_nil]
      exact Option.mem_toList.1 ht
    · obtain ⟨path, hpath, hplace, hmount⟩ := ih p hp hb
      refine ⟨p.1 :: path, by simp, by rw [hplace, List.append_assoc, List.singleton_append], ?_⟩
      rw [mountAt_cons, hchild, Option.bind_some, hmount]

/-- What is mounted at or below a directory is listed with the segments of the directory at the
beginning. -/
theorem Kept.prefix_of_mem (hd : d.Kept) {place : List String} {b : List String × Tree}
    (h : b ∈ d.mount.toList.map (place, ·) ++ d.bindings place) : place <+: b.1 := by
  rcases List.mem_append.1 h with h | h
  · obtain ⟨t, -, rfl⟩ := List.mem_map.1 h
    exact List.prefix_rfl
  · obtain ⟨path, -, hplace, -⟩ := hd.mountAt_of_mem_bindings h
    rw [hplace]
    exact List.prefix_append _ _

/-- The trees are listed in the order of their segments. -/
theorem Kept.increasing_bindings (hd : d.Kept) : ∀ place : List String,
    Ordered.Increasing (d.bindings place) := by
  induction hd with
  | @mk mount children increasing proper occupied below ih =>
    intro place
    rw [bindings]
    clear proper occupied
    induction children with
    | nil => exact .nil
    | cons p children ihrest =>
      obtain ⟨s, c⟩ := p
      obtain ⟨hlt, hincreasing⟩ := List.pairwise_cons.1 increasing
      have hc : c.Kept := below _ List.mem_cons_self
      have hrest := ihrest hincreasing (fun q hq => below q (List.mem_cons_of_mem _ hq))
        fun q hq => ih q (List.mem_cons_of_mem _ hq)
      rw [bindingsOf, Ordered.Increasing, List.pairwise_append, List.pairwise_append]
      refine ⟨⟨by cases c.mount <;> simp, ih _ List.mem_cons_self _, ?_⟩, hrest, ?_⟩
      · -- what is mounted further down has more segments
        intro b hb b' hb'
        obtain ⟨t, -, rfl⟩ := List.mem_map.1 hb
        obtain ⟨path, hpath, hplace, -⟩ := hc.mountAt_of_mem_bindings hb'
        rw [hplace]
        exact Ordered.compare_append_of_ne_nil _ hpath
      · -- the other directories have later names
        intro b hb b' hb'
        obtain ⟨q, hq, hb'⟩ := exists_of_mem_bindingsOf hb'
        obtain ⟨more, hmore⟩ := hc.prefix_of_mem hb
        obtain ⟨more', hmore'⟩ := (below q (List.mem_cons_of_mem _ hq)).prefix_of_mem hb'
        rw [← hmore, ← hmore', List.append_assoc, List.append_assoc]
        exact Ordered.compare_append_cons_of_lt place (hlt q hq) more more'

/-- No two trees are listed with the same segments. -/
theorem Kept.nodup_bindings (hd : d.Kept) (place : List String) :
    ((d.bindings place).map Prod.fst).Nodup := by
  refine List.Pairwise.map _ ?_ (hd.increasing_bindings place)
  rintro a b hlt he
  simp [he] at hlt

end Dir

/-! ### Calls -/

/-- The tree of each alias, by the segments of the alias. -/
abbrev AliasMap := List String → Option Tree

namespace Namespace

/-- A call that mounts or removes a tree. -/
inductive Call where
  /-- Mounts a tree at an alias. -/
  | attach (name : String) (tree : Tree)
  /-- Removes what is mounted at an alias. -/
  | detach (name : String)

/-- The name space after a call; a refused call leaves it as it was. -/
def perform (ns : Namespace) : Call → Namespace
  | .attach name t =>
    match ns.attach name t with
    | .ok after => after
    | .error _ => ns
  | .detach name => ns.detach name

/-- The name space after several calls on an empty one. -/
def run (calls : List Call) : Namespace := calls.foldl perform ∅

/-- The trees of the aliases after a call: the alias gets the tree or loses it.  What has no
segments is no alias. -/
def Call.mounting (m : AliasMap) : Call → AliasMap
  | .attach name t => if segments name = [] then m else Function.update m (segments name) (some t)
  | .detach name => Function.update m (segments name) none

/-- The trees of the aliases after several calls, when there were none. -/
def mounted (calls : List Call) : AliasMap := calls.foldl Call.mounting fun _ => none

theorem run_concat (calls : List Call) (c : Call) : run (calls ++ [c]) = (run calls).perform c := by
  rw [run, List.foldl_append]
  rfl

theorem mounted_concat (calls : List Call) (c : Call) :
    mounted (calls ++ [c]) = c.mounting (mounted calls) := by
  rw [mounted, List.foldl_append]
  rfl

/-- A name space has the trees of a map of aliases, and its directories are in order. -/
structure Holds (ns : Namespace) (m : AliasMap) : Prop where
  /-- The directories are in order. -/
  kept : ns.root.Kept
  /-- A tree is mounted where the map has one. -/
  mountAt : ∀ path, ns.root.mountAt path = m path
  /-- Nothing is mounted at the top. -/
  top : m [] = none

variable {ns : Namespace} {m : AliasMap}

theorem holds_empty : (∅ : Namespace).Holds fun _ => none where
  kept := Dir.kept_vacant
  mountAt := Dir.mountAt_vacant
  top := rfl

theorem Holds.perform (h : ns.Holds m) (c : Call) : (ns.perform c).Holds (c.mounting m) := by
  cases c with
  | attach name t =>
    by_cases hname : segments name = []
    · have hrefused : ns.perform (.attach name t) = ns := by
        rw [Namespace.perform, attach_of_segments_eq_nil hname]
      rw [hrefused, Call.mounting, if_pos hname]
      exact h
    · have hattach : ns.perform (.attach name t) = ⟨ns.root.attach t (segments name)⟩ := by
        simp [Namespace.perform, Namespace.attach, hname]
      rw [hattach, Call.mounting, if_neg hname]
      refine ⟨Dir.kept_attach t h.kept fun s hs => properSegment_of_mem_segments hs, ?_, ?_⟩
      · intro path
        rw [Dir.mountAt_attach, Function.update_apply, h.mountAt]
      · rw [Function.update_of_ne (Ne.symm hname), h.top]
  | detach name =>
    refine ⟨Dir.kept_detach h.kept, ?_, ?_⟩
    · intro path
      show (Dir.detach (segments name) ns.root).mountAt path = _
      rw [Dir.mountAt_detach h.kept, Call.mounting, Function.update_apply, h.mountAt]
    · rw [Call.mounting, Function.update_apply, h.top, ite_self]

theorem Holds.foldl (h : ns.Holds m) (calls : List Call) :
    (calls.foldl Namespace.perform ns).Holds (calls.foldl Call.mounting m) := by
  induction calls generalizing ns m with
  | nil => exact h
  | cons c calls ih => exact ih (h.perform c)

/-- **After any calls a name space has the trees that were mounted last.** -/
theorem holds_run (calls : List Call) : (run calls).Holds (mounted calls) := holds_empty.foldl calls

/-- Every tree of an alias was mounted by a call, or was there before. -/
theorem mem_calls_of_foldl {calls : List Call} {path : List String} {t : Tree}
    (h : calls.foldl Call.mounting m path = some t) :
    m path = some t ∨ ∃ name, Call.attach name t ∈ calls := by
  induction calls generalizing m with
  | nil => exact .inl h
  | cons c calls ih =>
    rcases ih h with h | ⟨name, hname⟩
    · cases c with
      | attach name u =>
        rw [Call.mounting] at h
        split at h
        · exact .inl h
        · rw [Function.update_apply] at h
          split at h
          · rw [← Option.some.inj h]
            exact .inr ⟨name, List.mem_cons_self⟩
          · exact .inl h
      | detach name =>
        rw [Call.mounting, Function.update_apply] at h
        split at h
        · simp at h
        · exact .inl h
    · exact .inr ⟨name, List.mem_cons_of_mem _ hname⟩

theorem exists_call_of_mounted {calls : List Call} {path : List String} {t : Tree}
    (h : mounted calls path = some t) : ∃ name, Call.attach name t ∈ calls := by
  rcases mem_calls_of_foldl h with h | h
  · simp at h
  · exact h

/-- The listed trees are those of the map. -/
theorem Holds.mounted_of_mem_bindings (h : ns.Holds m) {b : List String × Tree}
    (hb : b ∈ ns.bindings) : m b.1 = some b.2 := by
  obtain ⟨path, -, hplace, hmount⟩ := h.kept.mountAt_of_mem_bindings hb
  rw [List.nil_append] at hplace
  rw [hplace, ← h.mountAt, hmount]

theorem Holds.mem_bindings_iff (h : ns.Holds m) {path : List String} {t : Tree} :
    (path, t) ∈ ns.bindings ↔ m path = some t := by
  refine ⟨h.mounted_of_mem_bindings, fun ht => ?_⟩
  have hpath : path ≠ [] := by
    rintro rfl
    rw [h.top] at ht
    simp at ht
  rw [← h.mountAt] at ht
  obtain ⟨d, hd, hmount⟩ := Option.bind_eq_some_iff.1 ht
  exact mem_bindings_of_at? hpath hd hmount

/-- The aliases are the segments that the map has a tree for, once each. -/
theorem Holds.aliases (h : ns.Holds m) :
    (ns.bindings.map Prod.fst).Nodup ∧ ∀ path, path ∈ ns.bindings.map Prod.fst ↔ m path ≠ none := by
  refine ⟨h.kept.nodup_bindings [], fun path => ?_⟩
  rw [List.mem_map, Option.ne_none_iff_exists']
  constructor
  · rintro ⟨b, hb, rfl⟩
    exact ⟨b.2, h.mem_bindings_iff.1 hb⟩
  · rintro ⟨t, ht⟩
    exact ⟨(path, t), h.mem_bindings_iff.2 ht, rfl⟩

end Namespace

end ModuleAtlas
