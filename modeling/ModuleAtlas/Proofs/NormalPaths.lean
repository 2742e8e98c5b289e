import ModuleAtlas.Path.Normal
import ModuleAtlas.Proofs.SegmentLaws

/-!
# Normal paths

The spelling of a place is read back as the components of that place, and a place is not moved by
what led there.  Hence the normal form of a normal form is itself, and two paths in normal form are
equal as soon as they compare as equal.

## Main definitions

* `Component.Step` — the components that one piece between slashes denotes wherever it stands.
* `Settled`, `Place.Spelt` — what is left of components once they are settled, innermost first and
  outermost first.

## Main results

* `settled_foldl_settle`, `foldl_settle_reverse` — settling leads to settled places, and leaves
  them.
* `Path.components_ofComponents` — **the spelling of a place is read back.**
* `Path.normal_normal`, `Path.eq_of_compare_eq` — normal forms are fixed, and told by their
  components.
-/

namespace ModuleAtlas

/-- A component that its spelling denotes wherever it stands: a name or a step up. -/
def Component.Step (c : Component) : Prop :=
  Path.pieceComponent? c.text = some c ∧ '/' ∉ c.text.toList

theorem Component.Step.ne_empty {c : Component} (h : c.Step) : c.text ≠ "" := by
  intro hc
  have hnone := h.1
  rw [hc] at hnone
  simp [Path.pieceComponent?] at hnone

/-- A component is spelt by the piece that denotes it. -/
theorem Component.text_of_pieceComponent? {s : String} {c : Component}
    (h : Path.pieceComponent? s = some c) : c.text = s := by
  rw [Path.pieceComponent?] at h
  split at h
  · simp at h
  · split at h
    · next hup => rw [← Option.some.inj h, hup]; rfl
    · rw [← Option.some.inj h]; rfl

/-- A piece without slashes denotes a step, or nothing. -/
theorem Component.step_of_pieceComponent? {s : String} {c : Component} (hs : '/' ∉ s.toList)
    (h : Path.pieceComponent? s = some c) : c.Step := by
  rw [Component.Step, Component.text_of_pieceComponent? h]
  exact ⟨h, hs⟩

/-! ### Settled places -/

/-- A place, innermost component first: names, then either the root or steps up from where the path
starts. -/
def Settled : List Component → Prop
  | [] => True
  | .root :: place => place = []
  | .current :: _ => False
  | .parent :: place => ∀ c ∈ place, c = .parent
  | .name _ :: place => Settled place

theorem settled_of_parents : ∀ {place : List Component}, (∀ c ∈ place, c = .parent) → Settled place
  | [], _ => trivial
  | c :: place, h => by
    rw [h c List.mem_cons_self]
    exact fun d hd => h d (List.mem_cons_of_mem _ hd)

theorem settled_settle {place : List Component} (h : Settled place) {c : Component}
    (hc : c ≠ .root) : Settled (settle place c) := by
  cases c with
  | root => exact absurd rfl hc
  | current =>
    rw [settle_current]
    exact h
  | name s =>
    rw [settle_name]
    exact h
  | parent =>
    -- it is kept only where nothing but others of its kind is left
    cases place with
    | nil => exact fun d hd => by simp at hd
    | cons d place =>
      cases d with
      | root => exact h
      | current => exact h.elim
      | name s => exact h
      | parent =>
        show ∀ c ∈ Component.parent :: place, c = .parent
        intro c hc
        rcases List.mem_cons.1 hc with rfl | hc
        · rfl
        · exact h c hc

theorem settled_foldl_settle {l : List Component} (hl : .root ∉ l) :
    ∀ {place : List Component}, Settled place → Settled (l.foldl settle place) := by
  induction l with
  | nil => intro place h; exact h
  | cons c l ih =>
    intro place h
    rw [List.mem_cons, not_or] at hl
    exact ih hl.2 (settled_settle h (Ne.symm hl.1))

theorem notMem_current : ∀ {place : List Component}, Settled place → Component.current ∉ place := by
  intro place
  induction place with
  | nil => intro _; simp
  | cons c place ih =>
    intro h hmem
    cases c with
    | root =>
      obtain rfl : place = [] := h
      simp at hmem
    | current => exact h
    | name s =>
      rcases List.mem_cons.1 hmem with hc | hmem
      · simp at hc
      · exact ih h hmem
    | parent =>
      rcases List.mem_cons.1 hmem with hc | hmem
      · simp at hc
      · have hparent := h _ hmem
        simp at hparent

/-- What leads to a settled place leads there again. -/
theorem foldl_settle_reverse : ∀ {place : List Component}, Settled place →
    place.reverse.foldl settle [] = place := by
  intro place
  induction place with
  | nil => intro _; rfl
  | cons c place ih =>
    intro h
    rw [List.reverse_cons, List.foldl_append, List.foldl_cons, List.foldl_nil]
    cases c with
    | root =>
      obtain rfl : place = [] := h
      rfl
    | current => exact h.elim
    | name s => rw [ih h, settle_name]
    | parent =>
      rw [ih (settled_of_parents h)]
      cases place with
      | nil => rfl
      | cons d place =>
        rw [h d List.mem_cons_self]
        rfl

/-! ### The spelling of a place -/

namespace Path

theorem isAbsolute_iff {p : Path} : p.isAbsolute = true ↔ ∃ l, p.text.toList = '/' :: l := by
  rw [isAbsolute, String.isPrefixOf, String.startsWith_string_iff]
  constructor
  · rintro ⟨l, hl⟩
    exact ⟨l, hl.symm⟩
  · rintro ⟨l, hl⟩
    exact ⟨l, hl.symm⟩

theorem isAbsolute_eq_false {s : String} (h : '/' ∉ s.toList) : (Path.mk s).isAbsolute = false := by
  rw [isAbsolute, String.isPrefixOf, String.startsWith_string_eq_false_iff]
  rintro ⟨rest, hrest⟩
  apply h
  rw [← hrest]
  simp

/-- A spelling that ends with a piece does not end with a slash. -/
theorem getLast?_append_ne {t : String} (ht : t ≠ "") (hslash : '/' ∉ t.toList) (s : String) :
    (s ++ t).toList.getLast? ≠ some '/' := by
  rw [String.toList_append, List.getLast?_append]
  cases hlast : t.toList.getLast? with
  | none =>
    have hempty : t.toList = [] := List.getLast?_eq_none_iff.1 hlast
    exact absurd (String.toList_inj.1 hempty) ht
  | some d =>
    intro h
    obtain rfl : d = '/' := Option.some.inj h
    exact hslash (List.mem_of_getLast? hlast)

/-- Further steps are put after slashes. -/
theorem text_foldl_join {l : List Component} (hl : ∀ c ∈ l, c.Step) : ∀ {p : Path}, p.text ≠ "" →
    p.text.toList.getLast? ≠ some '/' →
    (l.foldl (fun p c => p.join ⟨c.text⟩) p).text =
      "/".intercalate (p.text :: l.map Component.text) := by
  induction l with
  | nil => intro p _ _; rw [List.map_nil, String.intercalate_singleton]; rfl
  | cons c l ih =>
    intro p hp hlast
    have hc : c.Step := hl c List.mem_cons_self
    have hjoin : p.join ⟨c.text⟩ = ⟨p.text ++ "/" ++ c.text⟩ := by
      rw [join, isAbsolute_eq_false hc.2]
      simp [hp, hlast]
    rw [List.foldl_cons, hjoin, ih (fun d hd => hl d (List.mem_cons_of_mem _ hd)) (by simp)
      (getLast?_append_ne hc.ne_empty hc.2 _), List.map_cons, String.intercalate_cons_cons,
      String.intercalate_cons_append]

/-- The steps from a path that is empty or ends with a slash are put right after it. -/
theorem text_foldl_join_of_open {c : Component} {l : List Component} (hc : c.Step)
    (hl : ∀ d ∈ l, d.Step) {p : Path} (hp : p.text = "" ∨ p.text.toList.getLast? = some '/') :
    ((c :: l).foldl (fun p c => p.join ⟨c.text⟩) p).text
      = p.text ++ "/".intercalate ((c :: l).map Component.text) := by
  have hjoin : p.join ⟨c.text⟩ = ⟨p.text ++ c.text⟩ := by
    rw [join, isAbsolute_eq_false hc.2]
    simp [hp]
  rw [List.foldl_cons, hjoin,
    text_foldl_join hl (by simp [hc.ne_empty]) (getLast?_append_ne hc.ne_empty hc.2 _),
    List.map_cons, String.intercalate_cons_append]

/-- The components that the pieces of steps denote. -/
theorem filterMap_pieceComponent? {l : List Component} (hl : ∀ c ∈ l, c.Step) :
    (l.map Component.text).filterMap pieceComponent? = l := by
  induction l with
  | nil => rfl
  | cons c l ih =>
    rw [List.map_cons, List.filterMap_cons_some (hl c List.mem_cons_self).1,
      ih fun d hd => hl d (List.mem_cons_of_mem _ hd)]

theorem pieces_of_text {p : Path} {l : List String} (hl : l ≠ []) (hslash : ∀ s ∈ l, '/' ∉ s.toList)
    (h : p.text = "/".intercalate l) : p.pieces = l := by
  rw [pieces, h]
  exact Text.splitAt_intercalate hl hslash

/-- The components of a place that starts where the path does. -/
theorem components_ofComponents_steps {l : List Component} (hl : ∀ c ∈ l, c.Step) :
    (ofComponents l).components = l := by
  cases l with
  | nil => decide +kernel
  | cons c l =>
    have hc : c.Step := hl c List.mem_cons_self
    have htext : (ofComponents (c :: l)).text = "/".intercalate ((c :: l).map Component.text) := by
      rw [ofComponents, text_foldl_join_of_open hc
        (fun d hd => hl d (List.mem_cons_of_mem _ hd)) (.inl rfl)]
      exact String.empty_append
    have hpieces : (ofComponents (c :: l)).pieces = (c :: l).map Component.text := by
      apply pieces_of_text (by simp) _ htext
      intro s hs
      obtain ⟨d, hd, rfl⟩ := List.mem_map.1 hs
      exact (hl d hd).2
    have hhead : headComponents c.text (!(l.map Component.text).isEmpty) = [c] := by
      have hdot : c.text ≠ "." := by
        intro h
        have hnone := hc.1
        rw [h] at hnone
        simp [pieceComponent?] at hnone
      rw [headComponents, if_neg hc.ne_empty, if_neg hdot, hc.1]
      rfl
    rw [components, hpieces, List.map_cons]
    show headComponents c.text _ ++ _ = _
    rw [hhead, filterMap_pieceComponent? fun d hd => hl d (List.mem_cons_of_mem _ hd)]
    rfl

/-- The components of a place below the root. -/
theorem components_ofComponents_root {l : List Component} (hl : ∀ c ∈ l, c.Step) :
    (ofComponents (.root :: l)).components = .root :: l := by
  cases l with
  | nil => decide +kernel
  | cons c l =>
    have hc : c.Step := hl c List.mem_cons_self
    -- the first slash is spelt by an empty piece
    have hroot : (Path.mk "").join ⟨Component.root.text⟩ = ⟨"/"⟩ := by decide +kernel
    have hslash : ("/" : String).toList.getLast? = some '/' := by decide
    have htext : (ofComponents (.root :: c :: l)).text
        = "/".intercalate ("" :: (c :: l).map Component.text) := by
      rw [ofComponents, List.foldl_cons, hroot,
        text_foldl_join_of_open hc (fun d hd => hl d (List.mem_cons_of_mem _ hd)) (.inr hslash),
        List.map_cons,
        String.intercalate_cons_cons, String.empty_append]
    have hpieces : (ofComponents (.root :: c :: l)).pieces = "" :: (c :: l).map Component.text := by
      apply pieces_of_text (by simp) _ htext
      intro s hs
      rcases List.mem_cons.1 hs with rfl | hs
      · simp
      · obtain ⟨d, hd, rfl⟩ := List.mem_map.1 hs
        exact (hl d hd).2
    rw [components, hpieces]
    show headComponents "" _ ++ _ = _
    rw [filterMap_pieceComponent? hl]
    rfl

end Path

/-! ### Normal forms -/

/-- A place, outermost component first: steps that start at the root, or where the path starts. -/
def Place.Spelt (l : List Component) : Prop :=
  ∃ steps, (∀ c ∈ steps, c.Step) ∧ (l = steps ∨ l = .root :: steps)

namespace Path

/-- **The spelling of a place is read back.** -/
theorem components_ofComponents {l : List Component} (hl : Place.Spelt l) :
    (ofComponents l).components = l := by
  obtain ⟨steps, hsteps, rfl | rfl⟩ := hl
  · exact components_ofComponents_steps hsteps
  · exact components_ofComponents_root hsteps

/-- The components of a path: steps, perhaps after the root or a dot. -/
theorem exists_components (p : Path) : ∃ steps, (∀ c ∈ steps, c.Step) ∧
    (p.components = steps ∨ p.components = .root :: steps ∨ p.components = .current :: steps) := by
  have hslash : ∀ s ∈ p.pieces, '/' ∉ s.toList := fun s hs => Text.notMem_of_mem_splitAt hs
  rw [components]
  cases hp : p.pieces with
  | nil => exact ⟨[], by simp, .inl rfl⟩
  | cons s rest =>
    rw [hp] at hslash
    have hrest : ∀ c ∈ rest.filterMap pieceComponent?, c.Step := by
      intro c hc
      obtain ⟨t, ht, hc⟩ := List.mem_filterMap.1 hc
      exact Component.step_of_pieceComponent? (hslash t (List.mem_cons_of_mem _ ht)) hc
    show ∃ steps, _ ∧
        (headComponents s _ ++ _ = _ ∨ headComponents s _ ++ _ = _ ∨ headComponents s _ ++ _ = _)
    rw [headComponents]
    -- the first piece: nothing, a dot, or any other text
    split
    · split
      · exact ⟨_, hrest, .inr (.inl rfl)⟩
      · exact ⟨_, hrest, .inl rfl⟩
    · split
      · exact ⟨_, hrest, .inr (.inr rfl)⟩
      · cases hc : pieceComponent? s with
        | none => exact ⟨_, hrest, .inl rfl⟩
        | some c =>
          refine ⟨c :: rest.filterMap pieceComponent?, ?_, .inl rfl⟩
          intro d hd
          rcases List.mem_cons.1 hd with rfl | hd
          · exact Component.step_of_pieceComponent? (hslash s List.mem_cons_self) hc
          · exact hrest d hd

end Path

theorem mem_settle {place : List Component} {c d : Component} (h : d ∈ settle place c) :
    d ∈ place ∨ d = c := by
  unfold settle at h
  split at h
  · exact .inl h
  · exact .inl (List.mem_cons_of_mem _ h)
  · exact .inl h
  · exact (List.mem_cons.1 h).symm
  · exact (List.mem_cons.1 h).symm

theorem mem_foldl_settle {l : List Component} {d : Component} : ∀ {place : List Component},
    d ∈ l.foldl settle place → d ∈ place ∨ d ∈ l := by
  induction l with
  | nil => intro place h; exact .inl h
  | cons c l ih =>
    intro place h
    rcases ih h with h | h
    · rcases mem_settle h with h | rfl
      · exact .inl h
      · exact .inr List.mem_cons_self
    · exact .inr (List.mem_cons_of_mem _ h)

/-- A settled place of steps and roots is spelt as a place. -/
theorem spelt_reverse {place : List Component} (h : Settled place)
    (hplace : ∀ c ∈ place, c.Step ∨ c = .root) : Place.Spelt place.reverse := by
  induction place with
  | nil => exact ⟨[], by simp, .inl rfl⟩
  | cons c place ih =>
    have htail : ∀ c ∈ place, c.Step ∨ c = .root := fun d hd => hplace d (List.mem_cons_of_mem _ hd)
    -- a step at the inner end goes to the end of the spelling
    have hconcat : Settled place → c.Step → Place.Spelt (c :: place).reverse := by
      intro hsettled hc
      obtain ⟨steps, hsteps, hspelt⟩ := ih hsettled htail
      refine ⟨steps ++ [c], ?_, ?_⟩
      · intro d hd
        rcases List.mem_append.1 hd with hd | hd
        · exact hsteps d hd
        · rw [List.mem_singleton.1 hd]
          exact hc
      · rw [List.reverse_cons]
        rcases hspelt with hspelt | hspelt
        · exact .inl (by rw [hspelt])
        · exact .inr (by rw [hspelt, List.cons_append])
    cases c with
    | root =>
      obtain rfl : place = [] := h
      exact ⟨[], by simp, .inr rfl⟩
    | current => exact h.elim
    | name s =>
      rcases hplace _ List.mem_cons_self with hc | hc
      · exact hconcat h hc
      · simp at hc
    | parent =>
      rcases hplace _ List.mem_cons_self with hc | hc
      · exact hconcat (settled_of_parents h) hc
      · simp at hc

/-- The components of a path settle, and settle into a place that can be spelt. -/
theorem settled_components (p : Path) : Settled (p.components.foldl settle []) ∧
    Place.Spelt (normalComponents p.components) := by
  obtain ⟨steps, hsteps, hp⟩ := p.exists_components
  have hroot : Component.root ∉ steps := by
    intro h
    have hdenotes := (hsteps _ h).1
    simp [Component.text, Path.pieceComponent?] at hdenotes
  -- whatever the path starts with, the steps begin at a settled place
  have hsettled : Settled (p.components.foldl settle []) := by
    rcases hp with hp | hp | hp
    · rw [hp]
      exact settled_foldl_settle hroot trivial
    · rw [hp, List.foldl_cons]
      have hstart : Settled [.root] := rfl
      exact settled_foldl_settle hroot hstart
    · rw [hp, List.foldl_cons, settle_current]
      exact settled_foldl_settle hroot trivial
  refine ⟨hsettled, spelt_reverse hsettled ?_⟩
  -- settling adds no component, and a dot does not stay
  intro c hc
  have hnotcurrent : c ≠ .current := by
    rintro rfl
    exact notMem_current hsettled hc
  rcases mem_foldl_settle hc with hc | hc
  · simp at hc
  · rcases hp with hp | hp | hp
    · rw [hp] at hc
      exact .inl (hsteps c hc)
    · rw [hp] at hc
      rcases List.mem_cons.1 hc with hc | hc
      · exact .inr hc
      · exact .inl (hsteps c hc)
    · rw [hp] at hc
      rcases List.mem_cons.1 hc with hc | hc
      · exact absurd hc hnotcurrent
      · exact .inl (hsteps c hc)

namespace Path

theorem components_normal (p : Path) : p.normal.components = normalComponents p.components :=
  components_ofComponents (settled_components p).2

/-- Normal forms are their own. -/
theorem normal_normal (p : Path) : p.normal.normal = p.normal := by
  have hfixed : normalComponents (normalComponents p.components) =
      normalComponents p.components := by
    rw [normalComponents, normalComponents, foldl_settle_reverse (settled_components p).1]
  rw [normal, components_normal, hfixed, normal]

/-- Paths in normal form are told by their components. -/
theorem eq_of_compare_eq {p q : Path} (hp : p.normal = p) (hq : q.normal = q)
    (h : compare p q = .eq) : p = q := by
  have hcomponents : p.components = q.components := Std.LawfulEqOrd.compare_eq_iff_eq.1 h
  rw [← hp, ← hq, normal, hcomponents, normal]

end Path

end ModuleAtlas
