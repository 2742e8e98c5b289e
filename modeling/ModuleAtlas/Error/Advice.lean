import ModuleAtlas.Error

/-!
# Advice for users

An error with, where one is known, a suggestion how to resolve it and further details.

## Main definitions

* `Advice`, `Advice.text`, `Advice.report` — an error with its advice, in one text and as a report.
* `Error.advice`, `Failure.advice` — the advice on an error and on a failure.
-/

namespace ModuleAtlas

/-- An error with what helps to resolve it. -/
structure Advice where
  /-- The error. -/
  error : Error
  /-- How to resolve it. -/
  suggestion : Option String := none
  /-- What else is known. -/
  details : Option String := none
  deriving DecidableEq, Repr

namespace Advice

/-- The advice in one text. -/
def text (a : Advice) : String :=
  let details := (a.details.map fun d => s!"\nDetails: {d}").getD ""
  let suggestion := (a.suggestion.map fun s => s!"\nSuggestion: {s}").getD ""
  a.error.message ++ details ++ suggestion

/-- The advice as a report of labelled lines. -/
def report (a : Advice) : String :=
  let details := (a.details.map fun d => s!"details: {d}\n").getD ""
  let suggestion := (a.suggestion.map fun s => s!"suggestion: {s}\n").getD ""
  s!"error: {a.error.message}\n" ++ details ++ suggestion

end Advice

/-- The advice on an error. -/
def Error.advice (e : Error) : Advice :=
  match e with
  | .missingAlias _ _ =>
    { error := e
      suggestion := some "Check the [paths] table; every alias must point at a scanned location"
      details := some "Run 'modgraph build' after adding a location so it is discovered" }
  | .configSyntax _ reason =>
    { error := e
      suggestion := some "Fix the TOML syntax in the configuration file"
      details := some reason }
  | .snapshot _ _ =>
    { error := e
      suggestion := some "Run 'modgraph build --clean' to regenerate the snapshot" }
  | .provisionalConflict _ =>
    { error := e
      details := some "A provisional generator must be finalized before it meets another one" }
  | _ => { error := e }

/-- The suggestion that belongs to a kind of refusal by the file system. -/
def IoKind.suggestion : IoKind → Option String
  | permissionDenied => some "Check ownership and permissions of the source and cache directories"
  | notFound => some "Check that the file or directory exists and the path is correct"
  | _ => none

/-- The advice on a failure: that on its known cause, or its whole story. -/
def Failure.advice (f : Failure) : Advice :=
  match f.cause with
  | .known e => e.advice
  | .io e => { error := .other f.chain, suggestion := e.kind.suggestion }
  | _ => { error := .other f.chain }

end ModuleAtlas
