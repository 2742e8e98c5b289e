import ModuleAtlas.Config.File
import ModuleAtlas.Disk.Basic

/-!
# Loading a configuration

A configuration is read from its file and checked.  Relative directories in it start from the
directory of the file.

## Main definitions

* `Config.load` — the checked configuration of a file.
-/

namespace ModuleAtlas.Config

/-- What is said about a file that describes no configuration. -/
def syntaxReason : String := "the text is not a table of the known fields"

/-- The configuration that a file describes, before it is checked. -/
def readFile (d : Disk) (p : Path) : Except Failure Config :=
  match d.readText p with
  | .error e => .error ((Failure.ofIo e).within s!"Failed to read config file: {p}")
  | .ok text =>
    match Config.read text with
    | none => .error (.ofError (.configSyntax p.text syntaxReason))
    | some c => .ok { c with origin := (d.cwdPath.join p).parent }

/-- The checked configuration of a file. -/
def load (d : Disk) (p : Path) : Except Failure Config :=
  match readFile d p with
  | .error f => .error f
  | .ok c => c.validate.mapError .ofError

end ModuleAtlas.Config
