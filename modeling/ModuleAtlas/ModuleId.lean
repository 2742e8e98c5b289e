import ModuleAtlas.Text.Split

/-!
# Module ids

A module id names a module by the segments between its slashes.  Empty segments and `.` carry no
meaning, so `a//b` and `./a/b` both name `a/b`.  A specifier that starts with `./` or `../` is
relative to the module that declares it; every other specifier is a module id.

## Main definitions

* `segments`, `joinSegments`, `normalizeId` — ids as lists of segments, and the normal form of an
  id.
* `resolveSegments`, `resolveSpecifier` — the id that a specifier names, seen from its referrer.
-/

namespace ModuleAtlas

/-- Whether a piece between two slashes is a segment of an id. -/
def isSegment (s : String) : Bool := s != "" && s != "."

/-- The meaningful segments of an id. -/
def segments (id : String) : List String := (Text.splitAt '/' id).filter isSegment

/-- The id with the given segments. -/
def joinSegments (l : List String) : String := "/".intercalate l

/-- The id without its meaningless segments. -/
def normalizeId (id : String) : String := joinSegments (segments id)

/-- Whether a specifier is relative to its referrer. -/
def isRelative (specifier : String) : Bool :=
  "./".isPrefixOf specifier || "../".isPrefixOf specifier

/-- Moves from a place to the one that a segment names: `..` steps up, and stays at the top. -/
def step (place : List String) (segment : String) : List String :=
  if segment = ".." then place.dropLast else place ++ [segment]

/-- The place that a relative specifier reaches from the directory of its referrer. -/
def resolveSegments (referrer specifier : List String) : List String :=
  specifier.foldl step referrer.dropLast

/-- The id that `specifier` names when the module `referrer` declares it. -/
def resolveSpecifier (referrer specifier : String) : String :=
  if isRelative specifier then joinSegments
    (resolveSegments (segments referrer) (segments specifier))
  else normalizeId specifier

@[simp] theorem step_parent (place : List String) :
    step place ".." = place.dropLast := by simp [step]

theorem step_name {segment : String} (h : segment ≠ "..") (place : List String) :
    step place segment = place ++ [segment] := by simp [step, h]

@[simp] theorem resolveSegments_nil (referrer : List String) :
    resolveSegments referrer [] = referrer.dropLast := rfl

theorem resolveSpecifier_of_isRelative {specifier : String} (h : isRelative specifier = true)
    (referrer : String) :
    resolveSpecifier referrer specifier
      = joinSegments (resolveSegments (segments referrer) (segments specifier)) := by
  simp [resolveSpecifier, h]

example : resolveSpecifier "p2/p1/a" "../b" = "p2/b" := by decide +kernel

end ModuleAtlas
