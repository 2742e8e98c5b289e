import ModuleAtlas.CacheKey.Generator
import ModuleAtlas.Proofs.MapLaws
import ModuleAtlas.Proofs.SegmentLaws

/-!
# Requested locales and their subtags

A locale is compared with a determinant by their bytes: it is the determinant, or its first bytes,
one more than the determinant has, are the determinant and a hyphen.  The first bytes of a text need
not be a text at all, since the cut may go through a character, and there may be too few of them.

What that comparison decides is a property of subtags, the texts between the hyphens of a tag.  A
fold of the case of ASCII letters changes neither the number of bytes of a character nor where the
hyphens stand, so the cut goes through a character only where the comparison would have failed as
well, and the hyphen at its end makes a subtag of the determinant match as a whole or not at all.
Nothing is assumed of the tags: they may be empty, have empty subtags and hold characters of any
width.

## Main definitions

* `subtags` — the texts between the hyphens of a tag.
* `FallsUnder` — a locale begins with the subtags of a tag, but for the case of ASCII letters.

## Main results

* `Text.leadingChars?_eq_some_iff` — which starts of a text take a number of bytes.
* `Text.splitChars_isPrefix_iff` — the pieces of a text begin with those of another.
* `matchesTag_iff` — the comparison of bytes decides `FallsUnder`.
* `Generator.fragment_locale` — **the key of a settled dimension of locales holds the tags under
  which a requested locale falls, and no others.**
-/

namespace ModuleAtlas

/-! ### Bytes of a text -/

namespace Text

/-- The number of bytes of characters. -/
def width : List Char → Nat
  | [] => 0
  | c :: s => c.utf8Size + width s

@[simp] theorem width_nil : width [] = 0 := rfl

@[simp] theorem width_cons (c : Char) (s : List Char) : width (c :: s) = c.utf8Size + width s := rfl

theorem utf8ByteSize_eq_width (s : String) : s.utf8ByteSize = width s.toList := by
  suffices h : ∀ l : List Char, (String.ofList l).utf8ByteSize = width l by
    rw [← h, String.ofList_toList]
  intro l
  induction l with
  | nil => rfl
  | cons c l ih =>
      rw [String.ofList_cons, String.utf8ByteSize_append, String.utf8ByteSize_singleton,
        ih, width_cons]

theorem width_eq_zero_iff {s : List Char} : width s = 0 ↔ s = [] := by
  cases s with
  | nil => simp
  | cons c s =>
    have hc : 0 < c.utf8Size := c.utf8Size_pos
    simp only [width_cons, reduceCtorEq, iff_false]
    omega

/-- The start of a text that takes a number of bytes is its prefix of that width. -/
theorem leadingChars?_eq_some_iff {bytes : Nat} {s start : List Char} :
    leadingChars? bytes s = some start ↔ start <+: s ∧ width start = bytes := by
  fun_induction leadingChars? bytes s generalizing start with
  | case1 s =>
    rw [Option.some_inj, width_eq_zero_iff]
    constructor
    · rintro rfl
      exact ⟨List.nil_prefix, rfl⟩
    · rintro ⟨-, rfl⟩
      rfl
  | case2 n =>
    simp only [reduceCtorEq, List.prefix_nil, false_iff, not_and]
    rintro rfl
    simp
  | case3 n c s hle ih =>
    rw [Option.map_eq_some_iff]
    constructor
    · rintro ⟨rest, hrest, rfl⟩
      obtain ⟨hp, hw⟩ := ih.1 hrest
      refine ⟨List.cons_prefix_cons.2 ⟨rfl, hp⟩, ?_⟩
      rw [width_cons]
      omega
    · rintro ⟨hp, hw⟩
      cases start with
      | nil => simp at hw
      | cons a rest =>
        obtain ⟨rfl, hrest⟩ := List.cons_prefix_cons.1 hp
        rw [width_cons] at hw
        exact ⟨rest, ih.2 ⟨hrest, by omega⟩, rfl⟩
  | case4 n c s hle =>
    -- the end lies inside the first character
    simp only [reduceCtorEq, false_iff, not_and]
    intro hp hw
    cases start with
    | nil => simp at hw
    | cons a rest =>
      obtain ⟨rfl, -⟩ := List.cons_prefix_cons.1 hp
      rw [width_cons] at hw
      omega

theorem leading?_eq_some_iff {bytes : Nat} {s start : String} :
    leading? bytes s = some start ↔ start.toList <+: s.toList ∧ start.utf8ByteSize = bytes := by
  rw [utf8ByteSize_eq_width, ← leadingChars?_eq_some_iff, leading?, Option.map_eq_some_iff]
  constructor
  · rintro ⟨l, hl, rfl⟩
    rw [String.toList_ofList]
    exact hl
  · intro h
    exact ⟨start.toList, h, String.ofList_toList⟩

/-! ### Pieces of a text -/

theorem intercalate_append {sep : List Char} {l m : List (List Char)} (hl : l ≠ []) (hm : m ≠ []) :
    sep.intercalate (l ++ m) = sep.intercalate l ++ sep ++ sep.intercalate m := by
  induction l with
  | nil => exact absurd rfl hl
  | cons piece l ih =>
    rw [List.cons_append]
    by_cases hrest : l = []
    · rw [hrest, List.nil_append, List.intercalate_cons_of_ne_nil hm, List.intercalate_singleton]
    · rw [List.intercalate_cons_of_ne_nil (List.append_ne_nil_of_right_ne_nil l hm), ih hrest,
        List.intercalate_cons_of_ne_nil hrest]
      simp only [List.append_assoc]

/-- The pieces of a text begin with those of another exactly if it is that text or goes on with a
separator after it. -/
theorem splitChars_isPrefix_iff (sep : Char) (s t : List Char) :
    splitChars sep s <+: splitChars sep t ↔ t = s ∨ s ++ [sep] <+: t := by
  rw [splitChars_eq_splitOn, splitChars_eq_splitOn]
  constructor
  · rintro ⟨rest, h⟩
    have hs : [sep].intercalate (s.splitOn sep) = s := List.intercalate_splitOn sep
    have ht : [sep].intercalate (s.splitOn sep ++ rest) = t := by rw [h, List.intercalate_splitOn]
    by_cases hrest : rest = []
    · left
      rw [← hs, ← ht, hrest, List.append_nil]
    · right
      refine ⟨[sep].intercalate rest, ?_⟩
      rw [← ht, intercalate_append (List.splitOn_ne_nil sep s) hrest, hs]
  · rintro (rfl | ⟨rest, rfl⟩)
    · exact List.prefix_rfl
    · rw [List.append_assoc, List.singleton_append, List.splitOn_append_cons_self]
      exact List.prefix_append _ _

/-- A change of characters that keeps the separator where it is changes the pieces alike. -/
theorem splitChars_map {sep : Char} {f : Char → Char} (hf : ∀ c, f c = sep ↔ c = sep)
    (s : List Char) : splitChars sep (s.map f) = (splitChars sep s).map (List.map f) := by
  induction s with
  | nil => rfl
  | cons c s ih =>
    rw [List.map_cons, splitChars, splitChars, ih]
    by_cases hc : c = sep
    · rw [if_pos ((hf c).2 hc), if_pos hc]
      rfl
    · rw [if_neg (mt (hf c).1 hc), if_neg hc]
      cases splitChars sep s <;> rfl

end Text

namespace CacheKey

open Text

/-! ### The case of ASCII letters -/

/-- A fold of case changes nothing but capital letters, and those to small ones. -/
theorem toLower_eq_self_or (c : Char) :
    c.toLower = c ∨ 65 ≤ c.toNat ∧ c.toNat ≤ 90 ∧ c.toLower.toNat = c.toNat + 32 := by
  by_cases h : c.val ≥ 'A'.val ∧ c.val ≤ 'Z'.val
  · have hlow : 65 ≤ c.val.toNat := UInt32.le_iff_toNat_le.1 h.1
    have hhigh : c.val.toNat ≤ 90 := UInt32.le_iff_toNat_le.1 h.2
    have hval : c.toLower.val = c.val + ('a'.val - 'A'.val) := congrArg Char.val (dif_pos h)
    have hsum : c.toLower.toNat = (c.val.toNat + 32) % 4294967296 := by
      rw [Char.toNat, hval]
      exact UInt32.toNat_add _ _
    refine .inr ⟨hlow, hhigh, ?_⟩
    rw [hsum, Nat.mod_eq_of_lt (by omega)]
    rfl
  · exact .inl (dif_neg h)

/-- It keeps the number of bytes, since it changes single bytes to single bytes. -/
theorem utf8Size_toLower (c : Char) : c.toLower.utf8Size = c.utf8Size := by
  have hsingle : ∀ a : Char, a.toNat ≤ 127 → a.utf8Size = 1 := by
    intro a ha
    rw [Char.utf8Size_eq_one_iff, UInt32.le_iff_toNat_le]
    exact ha
  rcases toLower_eq_self_or c with h | ⟨-, hhigh, h⟩
  · rw [h]
  · rw [hsingle c (by omega), hsingle c.toLower (by omega)]

theorem toLower_eq_hyphen_iff (c : Char) : c.toLower = '-' ↔ c = '-' := by
  rcases toLower_eq_self_or c with h | ⟨hlow, -, h⟩
  · rw [h]
  · constructor
    · intro hc
      rw [hc] at h
      have hcode : 45 = c.toNat + 32 := h
      omega
    · rintro rfl
      rfl

theorem width_foldCase (s : String) : width (foldCase s) = s.utf8ByteSize := by
  rw [utf8ByteSize_eq_width, foldCase]
  induction s.toList with
  | nil => rfl
  | cons c l ih => rw [List.map_cons, width_cons, width_cons, utf8Size_toLower, ih]

theorem foldCase_append_hyphen (s : String) : foldCase (s ++ "-") = foldCase s ++ ['-'] := by
  rw [foldCase, String.toList_append, List.map_append]
  rfl

/-! ### Subtags -/

/-- The texts between the hyphens of a tag. -/
def subtags (tag : String) : List String := splitAt '-' tag

/-- Whether a locale begins with the subtags of a tag, but for the case of ASCII letters. -/
def FallsUnder (locale tag : String) : Prop :=
  (subtags tag).map foldCase <+: (subtags locale).map foldCase

instance (locale tag : String) : Decidable (FallsUnder locale tag) :=
  inferInstanceAs (Decidable (_ <+: _))

theorem map_foldCase_subtags (tag : String) :
    (subtags tag).map foldCase = splitChars '-' (foldCase tag) := by
  rw [foldCase, splitChars_map toLower_eq_hyphen_iff, subtags, splitAt, List.map_map]
  apply List.map_congr_left
  intro piece _
  rw [Function.comp_apply, foldCase, String.toList_ofList]

theorem FallsUnder.trans {locale tag shorter : String} (h : FallsUnder locale tag)
    (h' : FallsUnder tag shorter) : FallsUnder locale shorter :=
  List.IsPrefix.trans h' h

/-- In characters, a locale falls under a tag exactly if it is the tag or goes on with a hyphen
after it. -/
theorem fallsUnder_iff {locale tag : String} :
    FallsUnder locale tag ↔ foldCase locale = foldCase tag ∨
      foldCase tag ++ ['-'] <+: foldCase locale := by
  rw [FallsUnder, map_foldCase_subtags, map_foldCase_subtags, splitChars_isPrefix_iff]

/-! ### The comparison of bytes -/

/-- The first bytes of a locale, one more than a tag has, are the tag and a hyphen just if the
locale begins with them in characters. -/
theorem any_leading?_iff {tag locale : String} :
    ((leading? (tag.utf8ByteSize + 1) locale).any fun start => sameFolded start (tag ++ "-")) =
      true ↔
      foldCase tag ++ ['-'] <+: foldCase locale := by
  rw [Option.any_eq_true]
  constructor
  · rintro ⟨start, hstart, hsame⟩
    have hfold : foldCase start = foldCase (tag ++ "-") := of_decide_eq_true hsame
    rw [← foldCase_append_hyphen, ← hfold]
    exact (leading?_eq_some_iff.1 hstart).1.map Char.toLower
  · intro h
    obtain ⟨l, hl, heq⟩ := List.prefix_map_iff.1 h
    -- the characters behind the folded ones take as many bytes, so the cut ends with them
    have hfold : foldCase (String.ofList l) = foldCase (tag ++ "-") := by
      rw [foldCase_append_hyphen, heq, foldCase, String.toList_ofList]
    have hsize : (String.ofList l).utf8ByteSize = tag.utf8ByteSize + 1 := by
      rw [← width_foldCase, hfold, width_foldCase, String.utf8ByteSize_append]
      rfl
    exact ⟨String.ofList l, leading?_eq_some_iff.2 ⟨by rwa [String.toList_ofList], hsize⟩,
      decide_eq_true hfold⟩

/-- The comparison of bytes decides whether the locale begins with the subtags of the
determinant. -/
theorem matchesTag_iff {determinant locale : String} :
    matchesTag determinant locale = true ↔ FallsUnder locale determinant := by
  rw [matchesTag, Bool.or_eq_true, any_leading?_iff, fallsUnder_iff, sameFolded, decide_eq_true_iff]

theorem Conditions.hasLocale_iff {c : Conditions} {determinant : String} :
    c.hasLocale determinant = true ↔ ∃ locale ∈ c.locales, FallsUnder locale determinant := by
  rw [hasLocale, List.any_eq_true]
  exact exists_congr fun _ => and_congr_right fun _ => matchesTag_iff

/-- What holds of a determinant for a request holds of every determinant under which that one
falls. -/
theorem Conditions.hasLocale_of_fallsUnder {c : Conditions} {tag shorter : String}
    (h : c.hasLocale tag = true) (hf : FallsUnder tag shorter) : c.hasLocale shorter = true := by
  obtain ⟨locale, hl, hunder⟩ := hasLocale_iff.1 h
  exact hasLocale_iff.2 ⟨locale, hl, hunder.trans hf⟩

/-! ### Keys -/

namespace Generator

/-- A settled dimension of locales writes the determinants that the request has. -/
theorem fragment_of_locale {g : Generator} (hkind : g.kind = .locale)
    (hfinal : g.provisional = false) {set : SortedSet String} (hset : g.determinants = some set)
    (c : Conditions) :
    g.fragment c =
      some ("locale\x7b" ++ ",".intercalate (set.toList.filter c.hasLocale) ++ "\x7d") := by
  have hparts : set.toList.filterMap (part? .locale c) = set.toList.filter c.hasLocale := by
    rw [← List.filterMap_eq_filter]
    rfl
  simp only [fragment, hfinal, hset, hkind, hparts, Kind.text, Bool.false_eq_true, if_false]
  rfl

/-- **The key of a settled dimension of locales, for every request.**  Without determinants it is
the name of the dimension.  Otherwise it holds in their order those determinants whose subtags begin
some requested locale, but for the case of ASCII letters; with a determinant it holds every other
one whose subtags begin that one. -/
theorem fragment_locale {g : Generator} (hkind : g.kind = .locale) (hfinal : g.provisional = false)
    (c : Conditions) :
    (g.determinants = none → g.fragment c = some "locale") ∧
      ∀ set, g.determinants = some set → ∃ tags : List String,
        g.fragment c = some ("locale\x7b" ++ ",".intercalate tags ++ "\x7d") ∧
        (tags.Pairwise fun d e => compare d e = .lt) ∧
        (∀ d, d ∈ tags ↔ d ∈ set.toList ∧ ∃ locale ∈ c.locales, FallsUnder locale d) ∧
        ∀ d ∈ tags, ∀ e ∈ set.toList, FallsUnder d e → e ∈ tags := by
  constructor
  · intro hnone
    simp [fragment, hfinal, hnone, hkind, Kind.text]
  · intro set hset
    have hmem : ∀ d, d ∈ set.toList.filter c.hasLocale ↔ d ∈ set.toList ∧ c.hasLocale d = true := by
      intro d
      exact List.mem_filter
    refine ⟨set.toList.filter c.hasLocale, fragment_of_locale hkind hfinal hset c, ?_, ?_, ?_⟩
    · exact set.pairwise_toList.filter _
    · intro d
      rw [hmem, Conditions.hasLocale_iff]
    · intro d hd e he hunder
      exact (hmem e).2 ⟨he, Conditions.hasLocale_of_fallsUnder ((hmem d).1 hd).2 hunder⟩

/-- The generator of the tags `en`, `en-US` and `fr`, and of three with empty subtags, one of them
with a wide character. -/
def mixedTags : Generator := settled .locale (some ["en-US", "fr", "en", "", "-é", "en-"])

/-- The request for `É`, through which the cut for the empty tag goes, for `-É-x`, whose accented
capital is not folded, and for `EN-us-x`. -/
def mixedRequest : Conditions := { locales := ["É", "-É-x", "EN-us-x"] }

/-- `fragment_locale` for tags and requests with repeated hyphens and wide characters. -/
theorem fragment_locale_mixedTags :
    mixedTags.kind = .locale ∧ mixedTags.provisional = false ∧
      mixedTags.fragment mixedRequest = some "locale\x7b,en,en-US\x7d" ∧
      ∀ set, mixedTags.determinants = some set → ∃ tags : List String,
        mixedTags.fragment mixedRequest = some ("locale\x7b" ++ ",".intercalate tags ++ "\x7d") ∧
        (tags.Pairwise fun d e => compare d e = .lt) ∧
        (∀ d, d ∈ tags ↔ d ∈ set.toList ∧ ∃ locale ∈ mixedRequest.locales, FallsUnder locale d) ∧
        ∀ d ∈ tags, ∀ e ∈ set.toList, FallsUnder d e → e ∈ tags :=
  ⟨rfl, rfl, by decide +kernel, (fragment_locale rfl rfl mixedRequest).2⟩

end Generator

end CacheKey

end ModuleAtlas
