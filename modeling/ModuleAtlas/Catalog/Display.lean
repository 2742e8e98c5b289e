import ModuleAtlas.Catalog.Basic
import ModuleAtlas.Text.Quoted

/-!
# Catalogs on display

A line that shows the settings of a catalog and the locations that have trees, for diagnosis.

## Main definitions

* `Catalog.display` — the line.
-/

namespace ModuleAtlas

open Text (quoted)

/-- A path on display. -/
def Path.display (p : Path) : String := quoted p.text

/-- Items on display, between brackets. -/
def listDisplay (l : List String) : String := "[" ++ ", ".intercalate l ++ "]"

/-- Items on display, between braces. -/
def setDisplay (l : List String) : String := "\x7b" ++ ", ".intercalate l ++ "\x7d"

/-- Settings on display. -/
def Settings.display (s : Settings) : String :=
  let snapshot :=
    match s.snapshot with
    | some p => "Some(" ++ p.display ++ ")"
    | none => "None"
  "TreeSettings \x7b locations: " ++ setDisplay (s.locations.toList.map Path.display)
    ++ ", config_signature: " ++ quoted s.signature ++ ", snapshot_path: " ++ snapshot
    ++ ", extensions: " ++ listDisplay (s.extensions.map quoted) ++ " \x7d"

/-- A catalog on display. -/
def Catalog.display (c : Catalog) : String :=
  "DependencyTree \x7b settings: " ++ c.settings.display
    ++ ", locations: " ++ listDisplay (c.locations.map Path.display) ++ ", .. \x7d"

@[simp] theorem listDisplay_nil : listDisplay [] = "[]" := rfl

end ModuleAtlas
