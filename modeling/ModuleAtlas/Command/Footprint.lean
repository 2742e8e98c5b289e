import ModuleAtlas.Command.Run

/-!
# Footprint of a command

The paths that a command line looks at, as far as a disk tells: the configuration file, and, if the
disk holds that, the locations, the record and its lock file.

## Main definitions

* `commandFootprint` — the paths.
-/

namespace ModuleAtlas

/-- The paths that a command line looks at, as far as a disk tells. -/
def commandFootprint (e : Environment) (args : List String) (d : Disk) : List Path :=
  match Arguments.read (e.get? "MODGRAPH_CONFIG") args with
  | .error _ => []
  | .ok i =>
    i.config ::
      match Config.load d i.config with
      | .error _ => []
      | .ok c =>
        match c.snapshotPlace e.userCache with
        | .error _ => c.locations.toList
        | .ok p => c.locations.toList ++ [p, lockPath p]

end ModuleAtlas
