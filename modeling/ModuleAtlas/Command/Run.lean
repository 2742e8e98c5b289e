import ModuleAtlas.Command.Arguments
import ModuleAtlas.Command.BuildText
import ModuleAtlas.Command.ConfigText
import ModuleAtlas.Command.ModuleText
import ModuleAtlas.Command.Outline
import ModuleAtlas.Command.Output
import ModuleAtlas.Config.Load
import ModuleAtlas.Error.Advice

/-!
# Running a command

A command line is carried out on a disk.  Failures are reported with advice and end with code one,
command lines that ask for no command with code two.

## Main definitions

* `Environment`, `Environment.userCache` — the variables that play a part, and the user's cache
  directory.
* `Request.perform` — what a request answers.
* `runCommand` — the output of a command line, and the disk after it.
-/

namespace ModuleAtlas

/-- The variables of the environment. -/
structure Environment where
  /-- The variables with their values. -/
  values : List (String × String) := []

namespace Environment

/-- The value of a variable. -/
def get? (e : Environment) (name : String) : Option String := e.values.lookup name

/-- The cache directory of the user: the one that is named as an absolute path, or else one in the
home directory. -/
def userCache (e : Environment) : Option Path :=
  let named := ((e.get? "XDG_CACHE_HOME").map Path.mk).filter Path.isAbsolute
  let home := (e.get? "HOME").filter (· ≠ "")
  named.or (home.map fun h => (Path.mk h).join ⟨".cache"⟩)

end Environment

/-- The configuration of a request, whose file has to be there. -/
def requestConfig (d : Disk) (file : Path) : Except Failure Config :=
  if d.exists? file then
    (Config.load d file).mapError (·.within s!"Failed to load configuration from {file}")
  else .error (.ofError (.configuration s!"Configuration file not found: {file}"))

namespace Request

/-- Builds the catalog of a configuration, and tells what was done. -/
def performBuild (settings : Settings) (o : BuildOptions) (d : Disk) :
    Except Failure (List String) × Disk :=
  let loaded : OnDisk Failure Catalog :=
    if o.clean then pure { settings } else do return (← Catalog.loadSnapshot { settings }).2
  match loaded d with
  | (.error f, d) => (.error f, d)
  | (.ok c, d) =>
    match c.build o d with
    | (.error f, _, d) => (.error f, d)
    | (.ok report, c, d) => (.ok (report.lines c), d)

/-- What is shown of a name space: a module, or its outline. -/
def inspected (ns : Namespace) (module : Option String) (json : Bool) (depth : Option Nat) :
    Except Failure (List String) :=
  match module with
  | some id =>
    match ns.resolve id with
    | .error f => .error (.ofFault f)
    | .ok none => .error (.ofError (.nodeNotFound id))
    | .ok (some v) =>
      ((ns.facts id v).map fun m => if json then [m.toJson.pretty] else m.lines).mapError .ofFault
  | none =>
    if json then ((ns.outlineJson depth).map fun j => [j.pretty]).mapError .ofFault
    else
      match ns.view.childNames with
      | .error f => .error (.ofFault f)
      | .ok names =>
        if names.toList.isEmpty then .ok ["No aliases configured."]
        else ((ns.rows depth).map fun rows => rows.map OutlineRow.text).mapError .ofFault

/-- Opens the catalog of a configuration, fills a name space with its aliases, and shows it. -/
def performInspect (settings : Settings) (aliases : SortedMap String Path) (module : Option String)
    (json : Bool) (depth : Option Nat) (o : BuildOptions) (d : Disk) :
    Except Failure (List String) × Disk :=
  match Catalog.openWith settings o d with
  | (.error f, d) => (.error f, d)
  | (.ok c, d) =>
    match c.mapAliases true ∅ aliases.toList with
    | (some e, _) => (.error (.ofError e), d)
    | (none, ns) => (inspected ns module json depth, d)

/-- The lines that a request answers with a configuration that was loaded from a file. -/
def perform (r : Request) (userCache : Option Path) (file : Path) (c : Config) (d : Disk) :
    Except Failure (List String) × Disk :=
  match r with
  | .build clean trusting =>
    match c.settings userCache with
    | .error f => (.error f, d)
    | .ok settings => performBuild settings { clean, validate := !trusting } d
  | .inspect module json depth trusting =>
    match c.settings userCache with
    | .error f => (.error f, d)
    | .ok settings =>
        performInspect settings c.aliases module json depth { validate := !trusting } d
  | .config json =>
    match c.snapshotPlace userCache with
    | .error f => (.error f, d)
    | .ok snapshot =>
      (.ok (if json then [(c.toJson d file snapshot).pretty] else c.lines d file snapshot), d)

end Request

/-- The name of the program and its version. -/
def versionLine : String := "modgraph 0.1.0"

/-- How the program is used. -/
def usageLines : List String :=
  ["Usage: modgraph [-v | -q] [-c <CONFIG>] <COMMAND>",
   "",
   "Commands:",
   "  build [--clean | --no-validate]",
   "  show [MODULE] [--json] [-d <DEPTH>] [--no-validate]",
   "  config [--json]"]

/-- The output of a command line that asks for no command. -/
def Refusal.output : Refusal → Output
  | .version => .ofLines [versionLine]
  | .help => .ofLines usageLines
  | .malformed => { code := 2, err := textOfLines usageLines }

/-- The output of what a command answers. -/
def outputOf : Except Failure (List String) → Output
  | .ok lines => .ofLines lines
  | .error f => { code := 1, err := f.advice.report }

/-- Carries out a command line. -/
def runCommand (e : Environment) (args : List String) (d : Disk) : Output × Disk :=
  match Arguments.read (e.get? "MODGRAPH_CONFIG") args with
  | .error r => (r.output, d)
  | .ok i =>
    match requestConfig d i.config with
    | .error f => (outputOf (.error f), d)
    | .ok c =>
      let answer := i.request.perform e.userCache i.config c d
      (outputOf answer.1, answer.2)

@[simp] theorem runCommand_nil (e : Environment) (d : Disk) :
    runCommand e [] d = (Refusal.malformed.output, d) := rfl

end ModuleAtlas
