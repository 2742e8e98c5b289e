import ModuleAtlas.SortedMap
import ModuleAtlas.Text.Utf8

/-!
# Build conditions

What a request asks for: feature flags that are set or unset, locales, and values of further
dimensions.  A requested locale matches a determinant that equals it or is a run of its leading
subtags, without regard to the case of ASCII letters.

## Main definitions

* `Conditions` — the request.
* `sameFolded` — texts that differ in the case of ASCII letters only.
* `matchesTag` — whether a locale falls under a determinant.
-/

namespace ModuleAtlas.CacheKey

/-- What a request asks for. -/
structure Conditions where
  /-- The feature flags that the request sets. -/
  features : SortedMap String Bool := ∅
  /-- The requested locales, the preferred ones first. -/
  locales : List String := []
  /-- The values of further dimensions. -/
  values : SortedMap String String := ∅

/-- The characters of a text with its ASCII letters in lower case. -/
def foldCase (s : String) : List Char := s.toList.map Char.toLower

/-- Whether two texts are the same but for the case of their ASCII letters. -/
def sameFolded (s t : String) : Bool := foldCase s = foldCase t

/-- Whether a locale is the determinant or starts with the determinant and a hyphen.  The start that
is compared is cut by its number of bytes, which may not be possible. -/
def matchesTag (determinant locale : String) : Bool :=
  sameFolded locale determinant ||
    (Text.leading? (determinant.utf8ByteSize + 1) locale).any fun start =>
      sameFolded start (determinant ++ "-")

/-- Whether some requested locale falls under the determinant. -/
def Conditions.hasLocale (c : Conditions) (determinant : String) : Bool :=
  c.locales.any (matchesTag determinant)

@[simp] theorem matchesTag_self (s : String) : matchesTag s s = true := by
  simp [matchesTag, sameFolded]

example : matchesTag "en" "EN-us" = true ∧ matchesTag "en" "english" = false := by decide

end ModuleAtlas.CacheKey
