import ModuleAtlas.Config.Signature
import ModuleAtlas.Disk.Basic
import ModuleAtlas.Text.Column

/-!
# A configuration on display

The places that a configuration stands for, its extensions and signature, and for each alias its
location and whether there is a directory.

## Main definitions

* `Config.lines`, `Config.toJson` — as text and as JSON.
-/

namespace ModuleAtlas.Config

/-- The line of a labelled value. -/
def labelled (label value : String) : String := s!"{Text.leftColumn 11 label} {value}"

/-- The lines on a configuration that was loaded from a file and keeps its record in another. -/
def lines (c : Config) (d : Disk) (file snapshot : Path) : List String :=
  let aliases := c.aliases.toList
  let places :=
    if aliases.isEmpty then ["No paths configured."]
    else "paths:" :: aliases.map fun p =>
      s!"  {p.1} -> {p.2}" ++ (if d.isDir p.2 then "" else " (missing)")
  [labelled "file:" file.text, labelled "base dir:" c.base.text, labelled "snapshot:" snapshot.text,
    labelled "extensions:" (", ".intercalate c.extensions),
    labelled "signature:" c.signature] ++ places

/-- The written form of a configuration that was loaded from a file and keeps its record in
another. -/
def toJson (c : Config) (d : Disk) (file snapshot : Path) : Json :=
  .obj
    [("baseDir", .str c.base.text), ("extensions", .strings c.extensions), ("file", .str file.text),
     ("paths", .obj (c.aliases.toList.map fun p =>
       (p.1, .obj [("exists", .bool (d.isDir p.2)), ("location", .str p.2.text)]))),
     ("signature", .str c.signature), ("snapshot", .str snapshot.text)]

end ModuleAtlas.Config
