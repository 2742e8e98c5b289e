import Mathlib.Data.List.Forall2
import Mathlib.Data.List.Nodup
import Mathlib.Data.Set.Function
import ModuleAtlas.Config.Signature
import ModuleAtlas.Proofs.JsonText
import ModuleAtlas.Proofs.NormalPaths
import ModuleAtlas.Proofs.RecordFile
import ModuleAtlas.Scan.SourceName

/-!
# Signatures of configurations

The text that is hashed for a signature is read back as the aliases with their locations and the
extensions in their order.  So unless the digest takes two of these texts for one, signatures tell
valid configurations apart exactly by their aliases and by the set of their extensions.  That is all
that a scan depends on, and hence a record is taken over only by a catalog that scans the same
locations for the same files.

## Main definitions

* `SamePaths` — maps of the same names to paths that compare as equal.
* `Settings.ScansAlike` — settings with the same locations and the same source files.

## Main results

* `textBytes_injective`, `hex_injective` — texts are told by their bytes, and bytes by their digits.
* `Config.signatureText_eq_iff` — the text that is hashed tells aliases and extensions.
* `Config.signature_eq_iff` — **what the signature of a valid configuration tells.**
* `Config.signature_tells_scans` — **a record is taken over only where the same is scanned.**
-/

namespace ModuleAtlas

/-! ### Texts and bytes -/

theorem toList_loop (bytes : ByteArray) (i : Nat) (l : List UInt8) :
    ByteArray.toList.loop bytes i l = l.reverse ++ bytes.data.toList.drop i := by
  fun_induction ByteArray.toList.loop bytes i l with
  | case1 i l h ih =>
    have hi : i < bytes.data.toList.length := by simpa using h
    rw [ih, List.drop_eq_getElem_cons hi]
    simp [ByteArray.get!, h]
  | case2 i l h =>
    rw [List.drop_eq_nil_of_le (by simpa using h), List.append_nil]

/-- Texts are told by their bytes. -/
theorem textBytes_injective : Function.Injective textBytes := by
  intro s t h
  rw [textBytes, textBytes, ByteArray.toList, ByteArray.toList, toList_loop, toList_loop] at h
  apply String.toByteArray_inj.1
  apply ByteArray.ext
  exact Array.toList_inj.1 h

theorem digitChar_injOn : ∀ m < 16, ∀ n < 16, Nat.digitChar m = Nat.digitChar n → m = n := by decide

theorem hexByte_injective : Function.Injective hexByte := by
  intro a b h
  have ha := a.toNat_lt
  have hb := b.toNat_lt
  obtain ⟨hhigh, h⟩ := List.cons.inj h
  obtain ⟨hlow, -⟩ := List.cons.inj h
  have hhigh := digitChar_injOn _ (by omega) _ (by omega) hhigh
  have hlow := digitChar_injOn _ (by omega) _ (by omega) hlow
  apply UInt8.toNat.inj
  omega

/-- Bytes are told by their digits. -/
theorem hex_injective : Function.Injective hex := by
  intro l m h
  have hdigits : l.flatMap hexByte = m.flatMap hexByte := String.ofList_injective h
  clear h
  induction l generalizing m with
  | nil =>
    cases m with
    | nil => rfl
    | cons b m => simp [hexByte] at hdigits
  | cons a l ih =>
    cases m with
    | nil => simp [hexByte] at hdigits
    | cons b m =>
      -- each byte has two digits
      obtain ⟨hbyte, hrest⟩ := List.append_inj hdigits rfl
      rw [hexByte_injective hbyte, ih hrest]

/-! ### Names of source files -/

/-- Which files are sources depends on the set of extensions alone. -/
theorem moduleName_congr {l m : List String} (h : ∀ e, e ∈ l ↔ e ∈ m) (fileName : String) :
    moduleName fileName l = moduleName fileName m := by
  have hcontains : ∀ e, l.contains e = m.contains e := fun e => by
    rw [Bool.eq_iff_iff, List.contains_iff_mem, List.contains_iff_mem, h]
  unfold moduleName
  simp only [hcontains]

/-- Lists of texts are sorted into one list exactly if they have the same texts as often. -/
theorem mergeSort_eq_iff_perm {l m : List String} :
    l.mergeSort (fun a b => a ≤ b) = m.mergeSort (fun a b => a ≤ b) ↔ l.Perm m := by
  constructor
  · intro h
    exact (List.mergeSort_perm l _).symm.trans (h ▸ List.mergeSort_perm m _)
  · intro h
    have hsorted : ∀ l : List String, (l.mergeSort fun a b => a ≤ b).Pairwise fun a b =>
        decide (a ≤ b) = true :=
      List.pairwise_mergeSort (fun a b c => by simpa using String.le_trans) fun a b => by
        simpa using String.le_total a b
    refine List.Perm.eq_of_pairwise ?_ (hsorted l) (hsorted m) ?_
    · intro a b _ _ hab hba
      exact String.le_antisymm (of_decide_eq_true hab) (of_decide_eq_true hba)
    · exact (List.mergeSort_perm l _).trans (h.trans (List.mergeSort_perm m _).symm)

/-! ### Aliases -/

/-- Two maps have the same names, for paths that compare as equal. -/
def SamePaths (m n : SortedMap String Path) : Prop :=
  List.Forall₂ (fun p q => p.1 = q.1 ∧ compare p.2 q.2 = .eq) m.toList n.toList

/-- Maps to paths in normal form are the same exactly if they are equal. -/
theorem samePaths_iff_eq {m n : SortedMap String Path} (hm : ∀ p ∈ m.toList, p.2.normal = p.2)
    (hn : ∀ p ∈ n.toList, p.2.normal = p.2) : SamePaths m n ↔ m = n := by
  rw [SortedMap.ext_iff, SamePaths]
  generalize m.toList = l at hm
  generalize n.toList = r at hn
  constructor
  · intro h
    induction h with
    | nil => rfl
    | @cons p q l r hpq _ ih =>
      obtain ⟨hname, hpath⟩ := hpq
      have hpath := Path.eq_of_compare_eq (hm p List.mem_cons_self) (hn q List.mem_cons_self) hpath
      rw [Prod.ext hname hpath, ih (fun p hp => hm p (List.mem_cons_of_mem _ hp))
        fun q hq => hn q (List.mem_cons_of_mem _ hq)]
  · rintro rfl
    exact List.forall₂_same.2 fun p _ => ⟨rfl, Std.ReflCmp.compare_self⟩

namespace Config

variable {a b c c' : Config}

/-- The locations of the aliases are in normal form. -/
theorem normal_of_mem_aliases : ∀ p ∈ c.aliases.toList, p.2.normal = p.2 := by
  intro p hp
  obtain ⟨q, -, rfl⟩ := List.mem_map.1 hp
  exact Path.normal_normal _

/-! ### Valid configurations -/

/-- A valid configuration has its extensions cleaned, and nothing else is changed. -/
theorem validate_cases (h : c.validate = .ok c') :
    (∀ q ∈ c.paths.toList, aliasProblem q.1 q.2 = none) ∧
      ∃ extensions, cleanExtensions c.extensions = .ok extensions ∧ { c with extensions } = c' := by
  rw [validate] at h
  split at h
  · cases h
  · next hproblem =>
    refine ⟨List.findSome?_eq_none_iff.1 hproblem, ?_⟩
    cases hclean : cleanExtensions c.extensions with
    | error e =>
      rw [hclean] at h
      cases h
    | ok extensions =>
      rw [hclean] at h
      exact ⟨extensions, rfl, Except.ok.inj h⟩

/-- Texts that are kept once. -/
theorem nodup_foldl_keep (l : List String) : ∀ {kept : List String}, kept.Nodup →
    (l.foldl (fun kept e => if kept.contains e then kept else kept ++ [e]) kept).Nodup := by
  induction l with
  | nil => intro kept h; exact h
  | cons e l ih =>
    intro kept h
    rw [List.foldl_cons]
    apply ih
    split
    · exact h
    · next hnew =>
      rw [List.contains_iff_mem] at hnew
      refine List.nodup_append.2 ⟨h, List.nodup_singleton e, ?_⟩
      rintro a ha b hb rfl
      exact hnew (List.mem_singleton.1 hb ▸ ha)

/-- A valid configuration has each extension once. -/
theorem nodup_extensions_of_validate (h : c.validate = .ok c') : c'.extensions.Nodup := by
  obtain ⟨-, extensions, hclean, rfl⟩ := validate_cases h
  rw [cleanExtensions] at hclean
  split at hclean
  · cases hclean
  · split at hclean
    · cases hclean
    · obtain rfl := Except.ok.inj hclean
      exact nodup_foldl_keep _ List.nodup_nil

/-! ### Signatures -/

/-- The value whose text is hashed. -/
def signatureJson (c : Config) : Json :=
  .obj [("extensions", .strings (c.extensions.mergeSort fun a b => a ≤ b)),
    ("paths", .obj (c.aliases.toList.map fun p => (p.1, .str p.2.text)))]

theorem readBack_signatureJson (c : Config) : Json.ReadBack c.signatureJson := by
  apply Json.readBack_obj
  intro p hp
  rcases List.mem_cons.1 hp with rfl | hp
  · exact Json.readBack_strings _
  · obtain rfl := List.mem_singleton.1 hp
    apply Json.readBack_obj
    intro q hq
    obtain ⟨r, -, rfl⟩ := List.mem_map.1 hq
    exact Json.readBack_str _

theorem signatureJson_eq_iff : a.signatureJson = b.signatureJson ↔
    a.aliases = b.aliases ∧ a.extensions.Perm b.extensions := by
  have hstr : Function.Injective Json.str := fun _ _ => Json.str.inj
  have hmember : Function.Injective fun p : String × Path => (p.1, Json.str p.2.text) := by
    rintro ⟨name, ⟨text⟩⟩ ⟨name', ⟨text'⟩⟩ h
    obtain ⟨rfl, htext⟩ := Prod.mk.inj h
    obtain rfl := Json.str.inj htext
    rfl
  constructor
  · intro h
    obtain ⟨hextensions, hrest⟩ := List.cons.inj (Json.obj.inj h)
    obtain ⟨hpaths, -⟩ := List.cons.inj hrest
    refine ⟨SortedMap.ext (hmember.list_map (Json.obj.inj (Prod.mk.inj hpaths).2)), ?_⟩
    exact mergeSort_eq_iff_perm.1 (hstr.list_map (Json.arr.inj (Prod.mk.inj hextensions).2))
  · rintro ⟨haliases, hextensions⟩
    rw [signatureJson, signatureJson, haliases, mergeSort_eq_iff_perm.2 hextensions]

/-- **The text that is hashed tells aliases and extensions.** -/
theorem signatureText_eq_iff : a.signatureText = b.signatureText ↔
    a.aliases = b.aliases ∧ a.extensions.Perm b.extensions := by
  rw [← signatureJson_eq_iff]
  constructor
  · exact Json.eq_of_compact_eq a.readBack_signatureJson b.readBack_signatureJson
  · intro h
    exact congrArg Json.compact h

end Config

/-! ### What a scan depends on -/

/-- Settings with the same locations, under which the same files are sources. -/
def Settings.ScansAlike (s t : Settings) : Prop :=
  s.locations = t.locations ∧ ∀ fileName,
    moduleName fileName s.extensions = moduleName fileName t.extensions

namespace Config

variable {a b c c' : Config} {userCache : Option Path} {s t : Settings}

/-- What settings have from their configuration. -/
theorem settings_cases (h : c.settings userCache = .ok s) :
    s.locations = .ofList (c.locations.toList.map Path.normal) ∧ s.signature = c.signature ∧
      s.extensions = c.extensions := by
  rw [settings] at h
  cases hplace : c.snapshotPlace userCache with
  | error f =>
    rw [hplace] at h
    cases h
  | ok place =>
    rw [hplace] at h
    obtain rfl := Except.ok.inj h
    exact ⟨rfl, rfl, rfl⟩

theorem scansAlike_of_aliases_eq (haliases : a.aliases = b.aliases)
    (hextensions : ∀ e, e ∈ a.extensions ↔ e ∈ b.extensions) {cacheA cacheB : Option Path}
    (hs : a.settings cacheA = .ok s) (ht : b.settings cacheB = .ok t) : s.ScansAlike t := by
  obtain ⟨hlocations, -, hkinds⟩ := settings_cases hs
  obtain ⟨hlocations', -, hkinds'⟩ := settings_cases ht
  constructor
  · rw [hlocations, hlocations', locations, locations, haliases]
  · rw [hkinds, hkinds']
    exact moduleName_congr hextensions

end Config

/-- A catalog that takes over what another one has written has the signature of that one. -/
theorem Catalog.signature_eq_of_loadSnapshot {c k k' : Catalog} {d d' : Disk} {p : Path}
    (hp : k.settings.snapshot = some p) (hload : k.loadSnapshot d = (.ok (true, k'), d'))
    (hread : d'.read p = .ok c.snapshot.toBytes) : c.settings.signature = k.settings.signature := by
  rcases loadSnapshot_found_cases hload with ⟨hfound, -⟩ | ⟨-, q, r, hq, hr, hvalid, -⟩
  · cases hfound
  · obtain rfl := Option.some.inj (hp.symm.trans hq)
    obtain ⟨bytes, hbytes, hdenotes, -⟩ := Snapshot.usable?_cases (Snapshot.load_cases hr)
    obtain rfl := Except.ok.inj (hread.symm.trans hbytes)
    obtain rfl := Snapshot.eq_of_ofBytes_toBytes hdenotes
    rw [Snapshot.isValidFor, Bool.and_eq_true, beq_iff_eq, beq_iff_eq] at hvalid
    exact hvalid.2

namespace Config

section

variable {a₀ b₀ a b : Config} (ha : a₀.validate = .ok a) (hb : b₀.validate = .ok b)
  (hdigest : Set.InjOn sha256 {textBytes a.signatureText, textBytes b.signatureText})

include ha hb hdigest

/-- **What the signature of a valid configuration tells**: its aliases, and which extensions it
has. -/
theorem signature_eq_iff : a.signature = b.signature ↔
    a.aliases = b.aliases ∧ ∀ e, e ∈ a.extensions ↔ e ∈ b.extensions := by
  rw [← List.perm_ext_iff_of_nodup (nodup_extensions_of_validate ha)
    (nodup_extensions_of_validate hb), ← signatureText_eq_iff, signature, signature,
    String.append_right_inj]
  constructor
  · intro h
    exact textBytes_injective (hdigest (.inl rfl) (.inr rfl) (hex_injective h))
  · intro h
    rw [h]

/-- **A record is taken over only where the same is scanned.**  Unless the digest takes the two
texts for one, two valid configurations have the same signature exactly if they have the same
aliases for the same paths and the same set of extensions.  Then their settings have the same
locations and the same source files, and so have they if a catalog of the one takes over what a
catalog of the other one has written. -/
theorem signature_tells_scans :
    (a.signature = b.signature ↔
      SamePaths a.aliases b.aliases ∧ ∀ e, e ∈ a.extensions ↔ e ∈ b.extensions) ∧
      ∀ (cacheA cacheB : Option Path) (s t : Settings),
        a.settings cacheA = .ok s → b.settings cacheB = .ok t →
        (a.signature = b.signature → s.ScansAlike t) ∧
          ∀ (c k k' : Catalog) (d d' : Disk) (p : Path), c.settings = s → k.settings = t →
            t.snapshot = some p → k.loadSnapshot d = (.ok (true, k'), d') →
              d'.read p = .ok c.snapshot.toBytes → s.ScansAlike t := by
  have hiff := signature_eq_iff ha hb hdigest
  refine ⟨?_, fun cacheA cacheB s t hs ht => ?_⟩
  · rw [hiff, samePaths_iff_eq normal_of_mem_aliases normal_of_mem_aliases]
  · have halike : a.signature = b.signature → s.ScansAlike t := by
      intro h
      obtain ⟨haliases, hextensions⟩ := hiff.1 h
      exact scansAlike_of_aliases_eq haliases hextensions hs ht
    refine ⟨halike, ?_⟩
    rintro c k k' d d' p rfl rfl hp hload hread
    apply halike
    rw [← (settings_cases hs).2.1, ← (settings_cases ht).2.1]
    exact Catalog.signature_eq_of_loadSnapshot hp hload hread

end

/-- A configuration of two locations and two kinds of sources. -/
def plainSpelling : Config where
  cacheDir := some ⟨"/cache"⟩
  extensions := ["js", "mjs"]
  paths := .ofList [("app", ⟨"app"⟩), ("lib", ⟨"../lib"⟩)]
  origin := some ⟨"/srv"⟩

/-- The same with other spellings, in another order. -/
def otherSpelling (extensions : List String) : Config where
  baseDir := some ⟨"./x/.."⟩
  cacheDir := some ⟨"../cache/"⟩
  extensions := extensions
  paths := .ofList [("lib", ⟨"/lib/."⟩), ("app", ⟨"./app/"⟩)]
  origin := some ⟨"/srv"⟩

/-- The settings of a configuration that keeps its record in that cache directory. -/
def cachedSettings (c : Config) : Settings :=
  { Settings.ofLocations c.locations.toList c.signature with
    snapshot := some ⟨"/cache/depmap.json"⟩, extensions := c.extensions }

/-- A disk with a file for the record. -/
def recordFile (bytes : ByteArray) : Disk where
  root := .dir [("cache", .dir [("depmap.json", .file bytes 1)])]

theorem lock_recordFile (bytes : ByteArray) : ∃ lockFile d',
    lock ⟨"/cache/depmap.json"⟩ (recordFile bytes) = (.ok lockFile, d') ∧
      d'.read ⟨"/cache/depmap.json"⟩ = .ok bytes ∧
        (recordFile bytes).exists? ⟨"/cache/depmap.json"⟩ = true :=
  ⟨_, _, by with_unfolding_all rfl, by with_unfolding_all rfl, by with_unfolding_all rfl⟩

/-- Two spellings of a configuration, and a catalog of the one that takes over the record of the
other one. -/
theorem signature_tells_scans_spellings : ∃ k' d',
    Catalog.loadSnapshot { settings := cachedSettings (otherSpelling ["mjs", "js"]) }
        (recordFile (Catalog.mk (cachedSettings plainSpelling) ∅).snapshot.toBytes) =
          (.ok (true, k'), d') ∧
      (cachedSettings plainSpelling).ScansAlike (cachedSettings (otherSpelling ["mjs", "js"])) := by
  have hplain : plainSpelling.validate = .ok plainSpelling := by decide +kernel
  have hother : (otherSpelling [".mjs", "js", "..mjs"]).validate =
      .ok (otherSpelling ["mjs", "js"]) := by
    decide +kernel
  have haliases : plainSpelling.aliases = (otherSpelling ["mjs", "js"]).aliases := by decide +kernel
  have hextensions : plainSpelling.extensions.Perm (otherSpelling ["mjs", "js"]).extensions := by
    decide
  have htext := signatureText_eq_iff.2 ⟨haliases, hextensions⟩
  have hdigest : Set.InjOn sha256
      {textBytes plainSpelling.signatureText,
        textBytes (otherSpelling ["mjs", "js"]).signatureText} := by
    rw [htext, Set.pair_eq_singleton]
    exact Set.injOn_singleton _ _
  obtain ⟨hsignature, hscans⟩ := signature_tells_scans hplain hother hdigest
  obtain ⟨-, hadopted⟩ :=
    hscans none none (cachedSettings plainSpelling) (cachedSettings (otherSpelling ["mjs", "js"]))
    (by with_unfolding_all rfl) (by with_unfolding_all rfl)
  have hsame :=
    hsignature.2 ⟨(samePaths_iff_eq normal_of_mem_aliases normal_of_mem_aliases).2 haliases,
    fun e => hextensions.mem_iff⟩
  let c : Catalog := { settings := cachedSettings plainSpelling }
  obtain ⟨lockFile, d', hlock, hread, hexists⟩ := lock_recordFile c.snapshot.toBytes
  have husable : Snapshot.usable? d' ⟨"/cache/depmap.json"⟩ = some c.snapshot :=
    Snapshot.usable?_of_read hread rfl rfl
  have hvalid : c.snapshot.isValidFor (otherSpelling ["mjs", "js"]).signature = true := by
    show (Snapshot.new plainSpelling.signature ∅).isValidFor
      (otherSpelling ["mjs", "js"]).signature = true
    rw [hsame, Snapshot.isValidFor_new]
  have hload := Catalog.loadSnapshot_of_usable
    (c := { settings := cachedSettings (otherSpelling ["mjs", "js"]) }) rfl hexists hlock husable
    hvalid
  exact ⟨_, _, hload, hadopted c _ _ _ _ _ rfl rfl rfl hload hread⟩

end Config

end ModuleAtlas
