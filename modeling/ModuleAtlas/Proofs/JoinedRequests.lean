import ModuleAtlas.Proofs.Reach

/-!
# Joined requests

The closure of two requests together is the closure of the first one, followed by what the closure
of the second one adds to it.  The traversal of the second request starts with what the first one
has listed and passes over it.  That changes nothing behind it: what is listed was answered for in
full, so that a traversal from nothing, wherever it goes into the part that is listed, adds nothing
new there and comes out as it went in.

## Main definitions

* `Closure.followedBy` — a closure, followed by what another one adds to it.

## Main results

* `Namespace.Visits.followedBy_eq` — what a closure answers for adds nothing to it.
* `Namespace.Visits.followedBy` — **a traversal goes on from a closure as it goes on from nothing.**
* `Namespace.Reachable.mono` — more requests reach more modules.
* `Namespace.expand_append` — **the closure of two requests is made of their closures.**
-/

namespace ModuleAtlas

/-- A closure, followed by what another one adds to it, in the order of that one. -/
def Closure.followedBy (c d : Closure) : Closure where
  modules := c.modules ++ d.modules.filter fun id => id ∉ c.modules
  dangling := c.dangling ++ d.dangling.filter fun l => l ∉ c.dangling

namespace Closure

variable {c d : Closure} {id : String} {l : Dangling}

@[simp] theorem followedBy_empty (c : Closure) : c.followedBy {} = c := by simp [followedBy]

theorem mem_modules_followedBy : id ∈ (c.followedBy d).modules ↔ id ∈ c.modules ∨
    id ∈ d.modules := by
  simp only [followedBy, List.mem_append, List.mem_filter, decide_eq_true_eq]
  tauto

/-- A module that is listed already is not added. -/
theorem followedBy_of_mem (h : id ∈ c.modules) :
    c.followedBy { d with modules := d.modules ++ [id] } = c.followedBy d := by
  simp [followedBy, h]

theorem followedBy_of_notMem (h : id ∉ c.modules) :
    c.followedBy { d with modules := d.modules ++ [id] }
    = { c.followedBy d with modules := (c.followedBy d).modules ++ [id] } := by
  simp [followedBy, h]

/-- A specifier is noted behind a closure unless it is noted in it. -/
theorem followedBy_note (c d : Closure) (l : Dangling) :
    c.followedBy { d with dangling := addNew d.dangling l }
      = { c.followedBy d with dangling := addNew (c.followedBy d).dangling l } := by
  by_cases hc : l ∈ c.dangling <;> by_cases hd : l ∈ d.dangling <;>
    simp [followedBy, addNew, hc, hd]

theorem followedBy_note_of_mem (h : l ∈ c.dangling) :
    c.followedBy { d with dangling := addNew d.dangling l } = c.followedBy d := by
  rw [followedBy_note]
  simp [followedBy, addNew, h]

end Closure

namespace Namespace

variable {ns : Namespace} {ps : List Pending} {c d e : Closure}

/-! ### Traversals from a closure -/

/-- What a closure answers for adds nothing to it. -/
theorem Visits.followedBy_eq (hc : ∀ id ∈ c.modules, ns.Closed c id) (h : ns.Visits ps d e)
    (hps : ∀ p ∈ ps, ns.Answered c p) : c.followedBy e = c.followedBy d := by
  induction h with
  | done => rfl
  | seen _ _ ih => exact ih fun q hq => hps q (List.mem_cons_of_mem _ hq)
  | @missing p rest d e _ hnone _ ih =>
    have hnoted : p.link ∈ c.dangling := by
      rcases hps p List.mem_cons_self with hlisted | ⟨-, hlink⟩
      · obtain ⟨n, hn, -⟩ := hc _ hlisted
        exact absurd hn (hnone n)
      · exact hlink
    rw [ih fun q hq => hps q (List.mem_cons_of_mem _ hq), Closure.followedBy_note_of_mem hnoted]
  | @enter p rest d e₁ e n _ hn _ _ ihbelow ihrest =>
    have hlisted : p.id ∈ c.modules := (hps p List.mem_cons_self).mem_modules hn
    obtain ⟨m, hm, hall⟩ := hc _ hlisted
    obtain rfl := hn.unique hm
    have hbelow : ∀ q ∈ n.deps.define.map (Pending.ofSpecifier p.id), ns.Answered c q := by
      intro q hq
      obtain ⟨s, hs, rfl⟩ := List.mem_map.1 hq
      exact hall s hs
    rw [ihrest fun q hq => hps q (List.mem_cons_of_mem _ hq), ihbelow hbelow,
      Closure.followedBy_of_mem hlisted]

/-- **A traversal goes on from a closure as it goes on from nothing**, with the closure in front. -/
theorem Visits.followedBy (hc : ∀ id ∈ c.modules, ns.Closed c id) (h : ns.Visits ps d e) :
    ns.Visits ps (c.followedBy d) (c.followedBy e) := by
  induction h with
  | done d => exact .done _
  | seen hmet _ ih => exact .seen (Closure.mem_modules_followedBy.2 (.inr hmet)) ih
  | @missing p rest d e hmet hnone _ ih =>
    rw [Closure.followedBy_note] at ih
    refine .missing ?_ hnone ih
    rw [Closure.mem_modules_followedBy, not_or]
    refine ⟨fun hlisted => ?_, hmet⟩
    obtain ⟨n, hn, -⟩ := hc _ hlisted
    exact hnone n hn
  | @enter p rest d e₁ e n hmet hn hbelow _ ihbelow ihrest =>
    by_cases hlisted : p.id ∈ c.modules
    · -- from nothing, the traversal goes into the part that is listed
      obtain ⟨m, hm, hall⟩ := hc _ hlisted
      obtain rfl := hn.unique hm
      have hsame : c.followedBy e₁ = c.followedBy d := by
        rw [hbelow.followedBy_eq hc, Closure.followedBy_of_mem hlisted]
        intro q hq
        obtain ⟨s, hs, rfl⟩ := List.mem_map.1 hq
        exact hall s hs
      rw [hsame] at ihrest
      exact .seen (Closure.mem_modules_followedBy.2 (.inl hlisted)) ihrest
    · rw [Closure.followedBy_of_notMem hlisted] at ihbelow
      refine .enter ?_ hn ihbelow ihrest
      rw [Closure.mem_modules_followedBy, not_or]
      exact ⟨hlisted, hmet⟩

/-! ### Requests -/

/-- More requests reach more modules. -/
theorem Reachable.mono {xs ys : List String} (hsubset : xs ⊆ ys) {id : String}
    (h : ns.Reachable xs id) : ns.Reachable ys id := by
  induction h with
  | request hid hn => exact .request (hsubset hid) hn
  | follow _ hm hs hn ih => exact .follow ih hm hs hn

/-- What a closure lists and notes depends only on which ids are requested. -/
theorem mem_closure_congr {xs ys : List String} (h : ∀ id, id ∈ xs ↔ id ∈ ys)
    (hc : ns.Visits (xs.map .ofRequest) {} c) (hd : ns.Visits (ys.map .ofRequest) {} d) :
    (∀ id, id ∈ c.modules ↔ id ∈ d.modules) ∧ ∀ l, l ∈ c.dangling ↔ l ∈ d.dangling := by
  have hmodules : ∀ id, id ∈ c.modules ↔ id ∈ d.modules := by
    intro id
    rw [mem_modules_iff hc, mem_modules_iff hd]
    exact ⟨.mono fun id hid => (h id).1 hid, .mono fun id hid => (h id).2 hid⟩
  refine ⟨hmodules, ?_⟩
  rintro ⟨referrer, s⟩
  cases referrer with
  | none => rw [mem_dangling_of_request_iff hc, mem_dangling_of_request_iff hd, h]
  | some r => rw [mem_dangling_of_module_iff hc, mem_dangling_of_module_iff hd, hmodules]

/-- **The closure of two requests is made of their closures**: the modules and the dangling
specifiers of the first, followed by those of the second that are not among them, in their order.
What a closure lists and notes does not depend on the order or the repetition of the requested
ids. -/
theorem expand_append (hns : ns.Sound) (xs ys : List String) :
    ∃ c d, ns.expand xs = .ok c ∧ ns.expand ys = .ok d ∧
      ns.expand (xs ++ ys) = .ok (c.followedBy d) ∧
      ∀ zs, (∀ id, id ∈ zs ↔ id ∈ xs) → ∃ e, ns.expand zs = .ok e ∧
        (∀ id, id ∈ e.modules ↔ id ∈ c.modules) ∧ ∀ l, l ∈ e.dangling ↔ l ∈ c.dangling := by
  obtain ⟨c, hc, hcvisits⟩ := exists_expand hns xs
  obtain ⟨d, hd, hdvisits⟩ := exists_expand hns ys
  obtain ⟨e, he, hevisits⟩ := exists_expand hns (xs ++ ys)
  have hboth : e = c.followedBy d := by
    rw [List.map_append] at hevisits
    obtain ⟨c', hfirst, hsecond⟩ := visits_append hevisits
    obtain rfl := hfirst.deterministic hcvisits
    have hclosed : ∀ id ∈ c'.modules, ns.Closed c' id := fun id hid => hcvisits.closed hid
    have hgoes := hdvisits.followedBy hclosed
    rw [Closure.followedBy_empty] at hgoes
    exact hsecond.deterministic hgoes
  refine ⟨c, d, hc, hd, hboth ▸ he, fun zs hzs => ?_⟩
  obtain ⟨f, hf, hfvisits⟩ := exists_expand hns zs
  exact ⟨f, hf, mem_closure_congr hzs hfvisits hcvisits⟩

/-- The first request notes what the second one notes after something else. -/
theorem expand_append_circle :
    circle.Sound ∧ ∃ c d, circle.expand ["lib", "app/x"] = .ok c ∧
      circle.expand ["app/b", "lib"] = .ok d ∧
      circle.expand ["lib", "app/x", "app/b", "lib"] = .ok (c.followedBy d) ∧
        (c.followedBy d).dangling = [⟨none, "lib"⟩, ⟨none, "app/x"⟩, ⟨some "app/a", "./gone"⟩] ∧
          ∃ e, circle.expand ["app/x", "lib", "app/x"] = .ok e ∧ ∀ l, l ∈ e.dangling ↔
            l ∈ c.dangling := by
  have hsound : circle.Sound := by decide +kernel
  have hfirst : circle.expand ["lib", "app/x"] = .ok ⟨[], [⟨none, "lib"⟩, ⟨none, "app/x"⟩]⟩ := by
    decide +kernel
  have hsecond : circle.expand ["app/b", "lib"] = .ok ⟨["app/b", "app/a"],
      [⟨some "app/a", "./gone"⟩, ⟨none, "lib"⟩]⟩ := by decide +kernel
  obtain ⟨c, d, hc, hd, hboth, hmembers⟩ := expand_append hsound ["lib", "app/x"] ["app/b", "lib"]
  obtain ⟨e, he, -, hdangling⟩ := hmembers ["app/x", "lib", "app/x"] (by simp)
  obtain rfl := Except.ok.inj (hfirst.symm.trans hc)
  obtain rfl := Except.ok.inj (hsecond.symm.trans hd)
  exact ⟨hsound, _, _, hc, hd, hboth, by decide +kernel, e, he, hdangling⟩

end Namespace

end ModuleAtlas
