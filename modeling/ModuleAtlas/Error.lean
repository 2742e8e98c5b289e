/-!
# Errors

An `Error` is a cause that callers are expected to tell apart.  A `Failure` is what reaches the
user: a cause, and the activities during which it arose, the outermost first.  The wording of every
cause is in `Error.message`.

## Main definitions

* `IoKind`, `IoError` — refusals by the file system.
* `Error`, `Error.message` — the causes and their texts.
* `Fault`, `Fault.message` — what stops a walk of a damaged tree.
* `Failure`, `Failure.within`, `Failure.chain` — causes with their contexts.
-/

namespace ModuleAtlas

/-- The kind of a refusal by the file system. -/
inductive IoKind where
  /-- There is no such file or directory. -/
  | notFound
  /-- The file may not be used in this way. -/
  | permissionDenied
  /-- There is such a file already. -/
  | alreadyExists
  /-- The file is a directory. -/
  | isADirectory
  /-- A part of the path is no directory. -/
  | notADirectory
  /-- The links of the path lead in a circle. -/
  | linkLoop
  /-- The file is one that cannot be replaced. -/
  | busy
  /-- The path cannot name a file. -/
  | invalidInput
  /-- The path, or a name in it, is too long. -/
  | invalidFilename
  /-- The content is no text. -/
  | invalidData
  /-- Any other refusal. -/
  | other
  deriving DecidableEq, Repr

/-- A refusal by the file system. -/
structure IoError where
  /-- The kind of the refusal. -/
  kind : IoKind
  /-- Its text. -/
  text : String
  deriving DecidableEq, Repr

/-- What stops a walk of a tree whose links are damaged. -/
inductive Fault where
  /-- A link leads to a place beyond the end of the table. -/
  | outOfRange (size index : Nat)
  /-- The links lead in a circle, so the walk has no end. -/
  | endless
  deriving DecidableEq, Repr

/-- The text of a fault. -/
def Fault.message : Fault → String
  | outOfRange size index => s!"index out of bounds: the len is {size} but the index is {index}"
  | endless => "the links of the tree form a cycle"

/-- The causes of errors. -/
inductive Error where
  /-- The configuration is inconsistent. -/
  | configuration (message : String)
  /-- An alias stands for a location without a tree. -/
  | missingAlias (name location : String)
  /-- The configuration file cannot be read as such. -/
  | configSyntax (file reason : String)
  /-- The parent has a child of that name already. -/
  | duplicateName (parent name : String)
  /-- There is no node at that place. -/
  | nodeNotFound (path : String)
  /-- The dependencies of a source file cannot be read. -/
  | parse (path reason : String)
  /-- The record of the dependency data cannot be read or written. -/
  | snapshot (path reason : String)
  /-- Two different provisional generators meet. -/
  | provisionalConflict (kind : String)
  /-- Two generators of different kinds meet. -/
  | kindMismatch (left right : String)
  /-- The file system refuses. -/
  | io (e : IoError)
  /-- Any other cause. -/
  | other (message : String)
  deriving DecidableEq, Repr

/-- The text of a cause. -/
def Error.message : Error → String
  | configuration m => s!"Configuration error: {m}"
  | missingAlias a l => s!"Alias '{a}' refers to unknown location: {l}"
  | configSyntax f _ => s!"Invalid configuration syntax in {f}"
  | duplicateName p n => s!"Node '{p}' already has a child named '{n}'"
  | nodeNotFound p => s!"Node not found: {p}"
  | parse p r => s!"Failed to parse dependencies in {p}: {r}"
  | snapshot p r => s!"Dependency snapshot error in {p}: {r}"
  | provisionalConflict k => s!"Cannot combine two provisional '{k}' cache key generators"
  | kindMismatch l r => s!"Cannot combine cache key generator '{l}' with '{r}'"
  | io e => s!"IO error: {e.text}"
  | other m => m

/-- The innermost cause of a failure. -/
inductive Cause where
  /-- A cause that callers tell apart. -/
  | known (e : Error)
  /-- A refusal by the file system. -/
  | io (e : IoError)
  /-- A fault of a tree. -/
  | fault (f : Fault)
  /-- A cause that only its text describes. -/
  | message (m : String)
  deriving DecidableEq, Repr

/-- The texts of a cause, the outermost first.  A refusal inside a known cause is told twice. -/
def Cause.lines : Cause → List String
  | known (.io e) => [(Error.io e).message, e.text]
  | known e => [e.message]
  | io e => [e.text]
  | fault f => [f.message]
  | message m => [m]

/-- A cause together with the activities during which it arose. -/
structure Failure where
  /-- The activities, the outermost first. -/
  contexts : List String := []
  /-- The innermost cause. -/
  cause : Cause
  deriving DecidableEq, Repr

namespace Failure

/-- The failure as seen from an activity around it. -/
def within (context : String) (f : Failure) : Failure :=
  { f with contexts := context :: f.contexts }

/-- The texts of the contexts and of the cause, the outermost first. -/
def lines (f : Failure) : List String := f.contexts ++ f.cause.lines

/-- The whole story in one text. -/
def chain (f : Failure) : String := ": ".intercalate f.lines

/-- The outermost text. -/
def top (f : Failure) : String := f.lines.headD ""

/-- The failure of a known cause. -/
def ofError (e : Error) : Failure := { cause := .known e }

/-- The failure of a refusal by the file system. -/
def ofIo (e : IoError) : Failure := { cause := .io e }

/-- The failure of a fault. -/
def ofFault (f : Fault) : Failure := { cause := .fault f }

/-- The failure that a text describes. -/
def ofMessage (m : String) : Failure := { cause := .message m }

@[simp] theorem lines_within (context : String) (f : Failure) :
    (f.within context).lines = context :: f.lines := rfl

@[simp] theorem top_within (context : String) (f : Failure) :
    (f.within context).top = context := rfl

@[simp] theorem cause_within (context : String) (f : Failure) :
    (f.within context).cause = f.cause := rfl

end Failure

end ModuleAtlas
