import ModuleAtlas.Amd.Printer

/-!
# A sample project

Two locations with nested modules, relative and absolute specifiers, cycles and specifiers that lead
nowhere, and a configuration that gives each location an alias.

## Main definitions

* `Sample.modules`, `Sample.files` — the modules and their source files.
* `Sample.locations`, `Sample.configText` — the locations and the text of the configuration.
-/

namespace ModuleAtlas.Sample

/-- The modules with the specifiers that they define and require. -/
def modules : List (String × List String × List String) :=
  let mixed := ["p1/a", "p2/p1/b", "p2/p1/p1/c", "p2/noexist"]
  [("p1/a", ["./b"], []), ("p1/b", ["./c"], []), ("p1/c", ["./a", "./b", "./noexist"], []),
   ("p1/p1", mixed, []), ("p2/a", ["./b"], []), ("p2/b", ["./c"], []), ("p2/p1/a", ["./b"], []),
   ("p2/p1/p1", ["./c"], []), ("p2/p1/p1/a", ["./b"], []), ("p2/p1/p1/b", ["./c"], []),
   ("p2/p1/p1/c", ["./a", "./b", "./noexist"], []), ("p2/p1/p1/foo", mixed, ["p2/a"])]

/-- The source files with their texts. -/
def files : List (String × String) := modules.map fun m => (m.1 ++ ".js", Amd.source m.2.1 m.2.2)

/-- The locations. -/
def locations : List String := ["p1", "p2"]

/-- The text of the configuration. -/
def configText : String := "cache_dir = \"cache\"\n\n[paths]\np1Alias = \"p1\"\np2Alias = \"p2\"\n"

end ModuleAtlas.Sample
