import ModuleAtlas.Proofs.CallShapes
import ModuleAtlas.Proofs.Signatures
import ModuleAtlas.Proofs.WalkLaws

/-!
# Files that an extension selects

A configured extension is freed of its leading dots, while the extension of a file is what stands
behind its last dot.  So an extension with a dot inside never is that of a file: files that end with
it are sources only if what stands behind its last dot is an extension as well.

## Main definitions

* `lastPart` — what stands behind the last dot of an extension.

## Main results

* `Text.cutLastChars_append` — a text is cut last where the part behind a separator is.
* `isSome_moduleName_append_iff` — which files that end with an extension are sources.
* `Config.mem_extensions_iff` — the extensions of a valid configuration.
* `Config.selects_iff` — **an extension selects files exactly if it has no dot, or what stands
  behind its last dot is listed.**
* `Config.not_selects_dotted` — a configuration is valid with an extension that selects no file.
-/

namespace ModuleAtlas

/-- What stands behind the last dot of an extension, or all of it if it has none. -/
def lastPart (extension : String) : String :=
  ((Text.cutLast '.' extension).map Prod.snd).getD extension

/-! ### Cutting at the last separator -/

namespace Text

/-- A text is cut last where the part behind a separator is, or at that separator. -/
theorem cutLastChars_append (sep : Char) (s t : List Char) : cutLastChars sep (s ++ sep :: t)
    = some (match cutLastChars sep t with
      | some (before, behind) => (s ++ sep :: before, behind)
      | none => (s, t)) := by
  induction s with
  | nil =>
    rw [List.nil_append, cutLastChars]
    cases cutLastChars sep t <;> simp
  | cons c s ih =>
    rw [List.cons_append, cutLastChars, ih]
    cases cutLastChars sep t <;> rfl

theorem cutLastChars_eq_none_iff {sep : Char} {s : List Char} :
    cutLastChars sep s = none ↔ sep ∉ s := by
  refine ⟨fun h hmem => ?_, fun h => ?_⟩
  · obtain ⟨before, behind, rfl⟩ := List.append_of_mem hmem
    rw [cutLastChars_append] at h
    cases h
  · rw [Option.eq_none_iff_forall_ne_some]
    rintro ⟨before, behind⟩ hcut
    exact h (by simp [eq_append_of_cutLastChars hcut])

end Text

theorem lastPart_of_notMem {extension : String} (h : '.' ∉ extension.toList) :
    lastPart extension = extension := by
  rw [lastPart, Text.cutLast, Text.cutLastChars_eq_none_iff.2 h]
  rfl

/-- A stem that goes on behind a dot can be the name of a module. -/
theorem isReservedStem_append {stem : String} (h : isReservedStem stem = false) (more : List Char) :
    isReservedStem (String.ofList (stem.toList ++ '.' :: more)) = false := by
  simp only [isReservedStem, Bool.or_eq_false_iff, decide_eq_false_iff_not, ← String.toList_inj,
    String.toList_ofList] at h ⊢
  obtain ⟨⟨hempty, hdot⟩, -⟩ := h
  obtain ⟨c, l, hl⟩ := List.exists_cons_of_ne_nil hempty
  rw [hl] at hdot ⊢
  refine ⟨⟨by simp, by simp⟩, fun heq => ?_⟩
  -- of two dots, the first one would be the whole stem
  obtain ⟨rfl, htail⟩ := List.cons.inj (show c :: (l ++ '.' :: more) = ['.', '.'] from heq)
  have hlength := congrArg List.length htail
  rw [List.length_append, List.length_cons, List.length_singleton] at hlength
  exact hdot (by rw [List.length_eq_zero_iff.1 (by omega : l.length = 0)]; rfl)

/-- Files that end with an extension are sources exactly if what stands behind its last dot is an
extension. -/
theorem isSome_moduleName_append_iff {stem : String} (h : isReservedStem stem = false)
    (extension : String) (extensions : List String) :
    (moduleName (stem ++ "." ++ extension) extensions).isSome = true ↔
      lastPart extension ∈ extensions := by
  have hchars : (stem ++ "." ++ extension).toList =
      stem.toList ++ '.' :: extension.toList := by simp
  have hselected : ∀ before behind : String, isReservedStem before = false →
      ((if isReservedStem before || !extensions.contains behind then none else some before).isSome =
        true ↔ behind ∈ extensions) := by
    intro before behind hbefore
    rw [hbefore, ← List.contains_iff_mem]
    cases extensions.contains behind <;> simp
  rw [moduleName, Text.cutLast, hchars, Text.cutLastChars_append, lastPart, Text.cutLast]
  cases Text.cutLastChars '.' extension.toList with
  | none => simpa using hselected stem extension h
  | some p => exact hselected _ _ (isReservedStem_append h p.1)

namespace Config

variable {c c' : Config}

/-- The extensions of a valid configuration are those that are written, without their leading
dots. -/
theorem mem_extensions_iff (h : c.validate = .ok c') {extension : String} :
    extension ∈ c'.extensions ↔ ∃ written ∈ c.extensions, trimDots written = extension := by
  obtain ⟨-, extensions, hclean, rfl⟩ := validate_cases h
  have hkeep : ∀ l : List String,
      l.foldl (fun kept e => if kept.contains e then kept else kept ++ [e]) [] = l.eraseDups :=
        Amd.foldl_addNew_nil
  rw [cleanExtensions] at hclean
  split at hclean
  · cases hclean
  · split at hclean
    · cases hclean
    · obtain rfl := Except.ok.inj hclean
      rw [hkeep, List.mem_eraseDups, List.mem_map]

/-- **An extension selects files exactly if it has no dot, or what stands behind its last dot is
listed:** this holds for every extension of a valid configuration and all stems. -/
theorem selects_iff (h : c.validate = .ok c') {extension : String}
    (hextension : extension ∈ c'.extensions) {stem : String} (hstem : isReservedStem stem = false) :
    (moduleName (stem ++ "." ++ extension) c'.extensions).isSome = true ↔
      '.' ∉ extension.toList ∨ ∃ written ∈ c.extensions, trimDots written = lastPart extension := by
  rw [isSome_moduleName_append_iff hstem, ← mem_extensions_iff h]
  refine ⟨.inr, ?_⟩
  rintro (hdot | hlisted)
  · rwa [lastPart_of_notMem hdot]
  · exact hlisted

/-- Sources of two kinds, one of which ends with the other. -/
def declarations : Config := { extensions := [".d.ts", "mjs", "ts", "js."] }

theorem selects_declarations :
    declarations.validate = .ok { extensions := ["d.ts", "mjs", "ts", "js."] } ∧
    "d.ts" ∈ ["d.ts", "mjs", "ts", "js."] ∧ isReservedStem "a" = false ∧
      ((moduleName ("a" ++ "." ++ "d.ts") ["d.ts", "mjs", "ts", "js."]).isSome = true ↔
        '.' ∉ "d.ts".toList ∨ ∃ written ∈ declarations.extensions,
          trimDots written = lastPart "d.ts") ∧
        moduleName ("a" ++ "." ++ "d.ts") ["d.ts", "mjs", "ts", "js."] = some "a.d" := by
  have hvalid : declarations.validate = .ok { extensions := ["d.ts", "mjs", "ts", "js."] } := by
    decide +kernel
  have hlisted : "d.ts" ∈ ["d.ts", "mjs", "ts", "js."] := by decide
  have hstem : isReservedStem "a" = false := by decide
  exact ⟨hvalid, hlisted, hstem, selects_iff hvalid hlisted hstem, by decide +kernel⟩

/-- A configuration is valid with an extension that selects no file. -/
theorem not_selects_dotted : ¬ ∀ c c' : Config, c.validate = .ok c' → ∀ extension ∈ c'.extensions,
    ∀ stem, isReservedStem stem = false →
      (moduleName (stem ++ "." ++ extension) c'.extensions).isSome = true := by
  intro h
  have hselected :=
    h { extensions := ["d.ts"] } { extensions := ["d.ts"] } (by decide +kernel) "d.ts"
      (by decide) "a" (by decide)
  rw [show moduleName ("a" ++ "." ++ "d.ts") ["d.ts"] = none by decide +kernel] at hselected
  cases hselected

end Config

end ModuleAtlas
