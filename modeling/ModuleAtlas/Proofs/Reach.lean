import ModuleAtlas.Proofs.Traversal

/-!
# Reachable modules

A module is reachable from a request when source files lead from a requested id to it, each by a
specifier in the definition of the one before.  The closure of a request lists the reachable
modules, each once, and notes the specifiers of listed modules, and the requested ids, that lead to
no source file.

Whatever a traversal is asked to visit is answered in its result: the id is listed, or it has no
source file and its specifier is noted.  The same holds of all that the newly listed modules name,
though the traversal passes over modules that are listed, since these are answered for elsewhere.

## Main definitions

* `Namespace.Reachable` — the modules that a request needs.
* `Namespace.Answered` — what the result of a traversal says about a visit.

## Main results

* `Namespace.Visits.answered` — **every visit is answered, and so is every specifier of a listed
  module.**
* `Namespace.Visits.reachable`, `Namespace.Visits.dangling_cases` — nothing else is listed or noted.
* `Namespace.expand_reachable` — hence a closure is the set of reachable modules, with what is
  missing.
-/

namespace ModuleAtlas

theorem mem_addNew {α : Type} [BEq α] [LawfulBEq α] {l : List α} {a b : α} :
    a ∈ addNew l b ↔ a ∈ l ∨ a = b := by
  rw [addNew]
  split
  · next hb =>
    rw [List.contains_iff_mem] at hb
    constructor
    · exact .inl
    · rintro (h | rfl)
      · exact h
      · exact hb
  · rw [List.mem_append, List.mem_singleton]

theorem nodup_addNew {α : Type} [BEq α] [LawfulBEq α] {l : List α} (hl : l.Nodup) (a : α) :
    (addNew l a).Nodup := by
  rw [addNew]
  split
  · exact hl
  · next ha =>
    rw [List.contains_iff_mem] at ha
    rw [List.nodup_append]
    refine ⟨hl, by simp, ?_⟩
    intro b hb c hc hbc
    rw [List.mem_singleton] at hc
    rw [← hc, ← hbc] at ha
    exact ha hb

namespace Namespace

variable {ns : Namespace}

/-- No source file has the id. -/
def Missing (ns : Namespace) (id : String) : Prop := ∀ n, ¬ ns.Backs id n

/-- The modules that a request needs: source files whose ids are requested, or named by the
definition of a module that it needs. -/
inductive Reachable (ns : Namespace) (ids : List String) : String → Prop
  /-- A requested module. -/
  | request {id : String} {n : Node} (hid : id ∈ ids) (hn : ns.Backs (normalizeId id) n) :
      Reachable ns ids (normalizeId id)
  /-- A module that a needed module depends on. -/
  | follow {r s : String} {m n : Node} (hr : Reachable ns ids r) (hm : ns.Backs r m)
      (hs : s ∈ m.deps.define) (hn : ns.Backs (resolveSpecifier r s) n) :
      Reachable ns ids (resolveSpecifier r s)

/-- A visit is answered: its module is listed, or is missing and noted as such. -/
def Answered (ns : Namespace) (c : Closure) (p : Pending) : Prop :=
  p.id ∈ c.modules ∨ ns.Missing p.id ∧ p.link ∈ c.dangling

/-- All that the definition of a module names is answered. -/
def Closed (ns : Namespace) (c : Closure) (id : String) : Prop :=
  ∃ n, ns.Backs id n ∧ ∀ s ∈ n.deps.define, ns.Answered c (.ofSpecifier id s)

/-! ### What a traversal answers -/

theorem Visits.dangling_subset {ps : List Pending} {c d : Closure} (h : ns.Visits ps c d) :
    c.dangling ⊆ d.dangling := by
  induction h with
  | done c => exact List.Subset.refl _
  | seen _ _ ih => exact ih
  | missing _ _ _ ih =>
    intro l hl
    exact ih (mem_addNew.2 (.inl hl))
  | enter _ _ _ _ ihbelow ihrest =>
    intro l hl
    exact ihrest (ihbelow hl)

/-- What is answered stays answered. -/
theorem Answered.mono {ps : List Pending} {c d : Closure} {p : Pending} (hp : ns.Answered c p)
    (h : ns.Visits ps c d) : ns.Answered d p := by
  rcases hp with hid | ⟨hmissing, hlink⟩
  · exact .inl (h.modules_subset hid)
  · exact .inr ⟨hmissing, h.dangling_subset hlink⟩

theorem Closed.mono {ps : List Pending} {c d : Closure} {id : String} (hid : ns.Closed c id)
    (h : ns.Visits ps c d) : ns.Closed d id := by
  obtain ⟨n, hn, hall⟩ := hid
  exact ⟨n, hn, fun s hs => (hall s hs).mono h⟩

/-- An answered id with a source file is listed. -/
theorem Answered.mem_modules {c : Closure} {p : Pending} (h : ns.Answered c p) {n : Node}
    (hn : ns.Backs p.id n) : p.id ∈ c.modules := by
  rcases h with hlisted | ⟨hmissing, -⟩
  · exact hlisted
  · exact absurd hn (hmissing n)

/-- **Every visit is answered, and so is every specifier of a module that the traversal lists.** -/
theorem Visits.answered {ps : List Pending} {c d : Closure} (h : ns.Visits ps c d) :
    (∀ p ∈ ps, ns.Answered d p) ∧ ∀ id ∈ d.modules, id ∈ c.modules ∨ ns.Closed d id := by
  induction h with
  | done c => exact ⟨by simp, fun id hid => .inl hid⟩
  | seen hmet hrest ih =>
    refine ⟨?_, ih.2⟩
    intro q hq
    rcases List.mem_cons.1 hq with rfl | hq
    · exact .inl (hrest.modules_subset hmet)
    · exact ih.1 q hq
  | missing _ hnone hrest ih =>
    refine ⟨?_, ih.2⟩
    intro q hq
    rcases List.mem_cons.1 hq with rfl | hq
    · exact .inr ⟨hnone, hrest.dangling_subset (mem_addNew.2 (.inr rfl))⟩
    · exact ih.1 q hq
  | @enter p rest c c₁ c' n _ hn hbelow hrest ihbelow ihrest =>
    refine ⟨?_, ?_⟩
    · intro q hq
      rcases List.mem_cons.1 hq with rfl | hq
      · exact .inl (hrest.modules_subset (hbelow.modules_subset (by simp)))
      · exact ihrest.1 q hq
    · intro id hid
      rcases ihrest.2 id hid with hid | hid
      · rcases ihbelow.2 id hid with hid | hid
        · rcases List.mem_append.1 hid with hid | hid
          · exact .inl hid
          · -- the module that is entered: the traversal of its definition answers it
            obtain rfl := List.mem_singleton.1 hid
            right
            refine ⟨n, hn, ?_⟩
            intro s hs
            exact (ihbelow.1 (.ofSpecifier p.id s) (List.mem_map_of_mem hs)).mono hrest
        · exact .inr (hid.mono hrest)
      · exact .inr hid

/-- All that a traversal lists from nothing is closed. -/
theorem Visits.closed {ps : List Pending} {d : Closure} (h : ns.Visits ps {} d) {id : String}
    (hid : id ∈ d.modules) : ns.Closed d id := by
  rcases h.answered.2 id hid with hnil | hclosed
  · simp at hnil
  · exact hclosed

/-- What is answered and missing is noted, since a module that is listed has a source file. -/
theorem Visits.mem_dangling {ps : List Pending} {d : Closure} (h : ns.Visits ps {} d) {p : Pending}
    (hp : ns.Answered d p) (hmissing : ns.Missing p.id) : p.link ∈ d.dangling := by
  rcases hp with hlisted | ⟨-, hlink⟩
  · obtain ⟨n, hn, -⟩ := h.closed hlisted
    exact absurd hn (hmissing n)
  · exact hlink

/-! ### What a traversal lists and notes -/

theorem Visits.nodup {ps : List Pending} {c d : Closure} (h : ns.Visits ps c d)
    (hmodules : c.modules.Nodup) (hdangling : c.dangling.Nodup) : d.modules.Nodup ∧
      d.dangling.Nodup := by
  induction h with
  | done c => exact ⟨hmodules, hdangling⟩
  | seen _ _ ih => exact ih hmodules hdangling
  | missing _ _ _ ih => exact ih hmodules (nodup_addNew hdangling _)
  | @enter p rest c c₁ c' n hmet _ _ _ ihbelow ihrest =>
    have hmet' : (c.modules ++ [p.id]).Nodup := by
      rw [List.nodup_append]
      refine ⟨hmodules, by simp, ?_⟩
      intro a ha b hb hab
      rw [List.mem_singleton] at hb
      rw [← hb, ← hab] at hmet
      exact hmet ha
    obtain ⟨hm, hd⟩ := ihbelow hmet' hdangling
    exact ihrest hm hd

/-- A set of modules that is closed under definitions holds all that a traversal lists, if it holds
what the traversal starts from. -/
theorem Visits.reachable {P : String → Prop}
    (hfollow : ∀ {r s : String} {m n : Node}, P r → ns.Backs r m → s ∈ m.deps.define →
      ns.Backs (resolveSpecifier r s) n → P (resolveSpecifier r s))
    {ps : List Pending} {c d : Closure} (h : ns.Visits ps c d)
    (hstart : ∀ p ∈ ps, ∀ n, ns.Backs p.id n → P p.id) :
    ∀ id ∈ d.modules, id ∈ c.modules ∨ P id := by
  induction h with
  | done c => exact fun id hid => .inl hid
  | seen _ _ ih => exact ih fun q hq => hstart q (List.mem_cons_of_mem _ hq)
  | missing _ _ _ ih => exact ih fun q hq => hstart q (List.mem_cons_of_mem _ hq)
  | @enter p rest c c₁ c' m _ hm _ _ ihbelow ihrest =>
    have hp : P p.id := hstart p List.mem_cons_self m hm
    have hbelow : ∀ q ∈ m.deps.define.map (Pending.ofSpecifier p.id), ∀ n,
        ns.Backs q.id n → P q.id := by
      intro q hq n hn
      obtain ⟨s, hs, rfl⟩ := List.mem_map.1 hq
      exact hfollow hp hm hs hn
    -- a listed module comes from the rest, from below, from this visit, or from before
    intro id hid
    rcases ihrest (fun q hq => hstart q (List.mem_cons_of_mem _ hq)) id hid with hid | hid
    · rcases ihbelow hbelow id hid with hid | hid
      · rcases List.mem_append.1 hid with hid | hid
        · exact .inl hid
        · rw [List.mem_singleton.1 hid]
          exact .inr hp
      · exact .inr hid
    · exact .inr hid

/-- What a traversal notes is missing, and was to be visited or is named by a module that is
listed. -/
theorem Visits.dangling_cases {ps : List Pending} {c d : Closure} (h : ns.Visits ps c d) :
    ∀ l ∈ d.dangling, l ∈ c.dangling ∨ (∃ p ∈ ps, p.link = l ∧ ns.Missing p.id) ∨
      ∃ r ∈ d.modules, ∃ n, ns.Backs r n ∧ ∃ s ∈ n.deps.define, l = ⟨some r, s⟩ ∧
        ns.Missing (resolveSpecifier r s) := by
  induction h with
  | done c => exact fun l hl => .inl hl
  | seen _ _ ih =>
    intro l hl
    rcases ih l hl with hl | ⟨p, hp, hl⟩ | hl
    · exact .inl hl
    · exact .inr (.inl ⟨p, List.mem_cons_of_mem _ hp, hl⟩)
    · exact .inr (.inr hl)
  | missing _ hnone _ ih =>
    intro l hl
    rcases ih l hl with hl | ⟨p, hp, hl⟩ | hl
    · rcases mem_addNew.1 hl with hl | rfl
      · exact .inl hl
      · exact .inr (.inl ⟨_, List.mem_cons_self, rfl, hnone⟩)
    · exact .inr (.inl ⟨p, List.mem_cons_of_mem _ hp, hl⟩)
    · exact .inr (.inr hl)
  | @enter p rest c c₁ c' n _ hn hbelow hrest ihbelow ihrest =>
    have hp : p.id ∈ c'.modules := hrest.modules_subset (hbelow.modules_subset (by simp))
    intro l hl
    rcases ihrest l hl with hl | ⟨q, hq, hl⟩ | hl
    · rcases ihbelow l hl with hl | ⟨q, hq, rfl, hmissing⟩ | ⟨r, hr, hl⟩
      · exact .inl hl
      · -- a specifier of the module that is entered
        obtain ⟨s, hs, rfl⟩ := List.mem_map.1 hq
        exact .inr (.inr ⟨p.id, hp, n, hn, s, hs, rfl, hmissing⟩)
      · exact .inr (.inr ⟨r, hrest.modules_subset hr, hl⟩)
    · exact .inr (.inl ⟨q, List.mem_cons_of_mem _ hq, hl⟩)
    · exact .inr (.inr hl)

/-! ### Closures -/

/-- The result of the traversal of a request lists the reachable modules. -/
theorem mem_modules_iff {ids : List String} {c : Closure} (h : ns.Visits (ids.map .ofRequest) {} c)
    {id : String} : id ∈ c.modules ↔ ns.Reachable ids id := by
  constructor
  · intro hid
    have hstart : ∀ p ∈ ids.map Pending.ofRequest, ∀ n, ns.Backs p.id n →
        ns.Reachable ids p.id := by
      intro p hp n hn
      obtain ⟨id, hid, rfl⟩ := List.mem_map.1 hp
      exact .request hid hn
    rcases h.reachable .follow hstart id hid with hnil | hid
    · simp at hnil
    · exact hid
  · intro hid
    induction hid with
    | @request id n hid hn =>
      have hanswered : ns.Answered c (.ofRequest id) := h.answered.1 _ (List.mem_map_of_mem hid)
      exact hanswered.mem_modules hn
    | @follow r s m n _ hm hs hn ih =>
      obtain ⟨m', hm', hall⟩ := h.closed ih
      rw [hm.unique hm'] at hs
      exact (hall s hs).mem_modules hn

/-- It notes the specifiers of listed modules that lead to no source file. -/
theorem mem_dangling_of_module_iff {ids : List String} {c : Closure}
    (h : ns.Visits (ids.map .ofRequest) {} c) {r s : String} :
    ⟨some r, s⟩ ∈ c.dangling ↔ r ∈ c.modules ∧ (∃ n, ns.Backs r n ∧ s ∈ n.deps.define) ∧
      ns.Missing (resolveSpecifier r s) := by
  constructor
  · intro hl
    rcases h.dangling_cases _ hl with
      hnil | ⟨p, hp, hlink, -⟩ | ⟨r', hr, n, hn, s', hs, hlink, hmissing⟩
    · simp at hnil
    · obtain ⟨id, -, rfl⟩ := List.mem_map.1 hp
      simp [Pending.ofRequest] at hlink
    · obtain ⟨hr', rfl⟩ := Dangling.mk.inj hlink
      obtain rfl := Option.some.inj hr'
      exact ⟨hr, ⟨n, hn, hs⟩, hmissing⟩
  · rintro ⟨hr, ⟨n, hn, hs⟩, hmissing⟩
    obtain ⟨m, hm, hall⟩ := h.closed hr
    rw [hn.unique hm] at hs
    exact h.mem_dangling (hall s hs) hmissing

/-- It notes the requested ids that lead to no source file. -/
theorem mem_dangling_of_request_iff {ids : List String} {c : Closure}
    (h : ns.Visits (ids.map .ofRequest) {} c) {s : String} :
    ⟨none, s⟩ ∈ c.dangling ↔ s ∈ ids ∧ ns.Missing (normalizeId s) := by
  constructor
  · intro hl
    rcases h.dangling_cases _ hl with
      hnil | ⟨p, hp, hlink, hmissing⟩ | ⟨r, -, n, -, s', -, hlink, -⟩
    · simp at hnil
    · obtain ⟨id, hid, rfl⟩ := List.mem_map.1 hp
      obtain ⟨-, rfl⟩ := Dangling.mk.inj hlink
      exact ⟨hid, hmissing⟩
    · simp at hlink
  · rintro ⟨hid, hmissing⟩
    exact h.mem_dangling (h.answered.1 (.ofRequest s) (List.mem_map_of_mem hid)) hmissing

/-- A closure lists the modules that are reachable from the request, each once, and notes what is
missing, each specifier once for each module that names it, and each requested id once. -/
theorem expand_reachable (hns : ns.Sound) (ids : List String) :
    ∃ c, ns.expand ids = .ok c ∧
      c.modules.Nodup ∧ (∀ id, id ∈ c.modules ↔ ns.Reachable ids id) ∧
      c.dangling.Nodup ∧
      (∀ r s, ⟨some r, s⟩ ∈ c.dangling ↔ r ∈ c.modules ∧ (∃ n, ns.Backs r n ∧ s ∈ n.deps.define) ∧
        ns.Missing (resolveSpecifier r s)) ∧
      ∀ s, ⟨none, s⟩ ∈ c.dangling ↔ s ∈ ids ∧ ns.Missing (normalizeId s) := by
  obtain ⟨c, hc, hv⟩ := exists_expand hns ids
  obtain ⟨hmodules, hdangling⟩ := hv.nodup .nil .nil
  refine ⟨c, hc, hmodules, ?_, hdangling, ?_, ?_⟩
  · intro id
    exact mem_modules_iff hv
  · intro r s
    exact mem_dangling_of_module_iff hv
  · intro s
    exact mem_dangling_of_request_iff hv

theorem reachable_circle :
    circle.Sound ∧ (∀ id, circle.Reachable ["app/b", "lib"] id ↔ id ∈ ["app/b", "app/a"]) ∧
      circle.Missing "app/gone" := by
  have hsound : circle.Sound := by decide +kernel
  have hexpand : circle.expand ["app/b", "lib"] = .ok ⟨["app/b", "app/a"],
      [⟨some "app/a", "./gone"⟩, ⟨none, "lib"⟩]⟩ := by decide +kernel
  obtain ⟨c, hc, -, hreachable, -, hnoted, -⟩ := expand_reachable hsound ["app/b", "lib"]
  rw [hexpand] at hc
  obtain rfl := Except.ok.inj hc
  have hid : resolveSpecifier "app/a" "./gone" = "app/gone" := by decide +kernel
  obtain ⟨-, -, hmissing⟩ := (hnoted "app/a" "./gone").1 (by simp)
  refine ⟨hsound, fun id => (hreachable id).symm, ?_⟩
  rw [← hid]
  exact hmissing

end Namespace

end ModuleAtlas
