/-!
# Module sources

The source text of a module that declares given dependencies: a definition with its array and, if
anything is required, one requirement of an array inside.

## Main definitions

* `Amd.source` — the text of a module.
-/

namespace ModuleAtlas.Amd

/-- An array of specifiers between double quotes, without its brackets. -/
def quotedList (l : List String) : String := ", ".intercalate (l.map fun s => "\"" ++ s ++ "\"")

/-- The source text of a module with the given dependencies. -/
def source (define require : List String) : String :=
  let body :=
    if require.isEmpty then ""
    else "\n    require([" ++ quotedList require ++ "], function() \x7b\x7d);\n"
  "define([" ++ quotedList define ++ "], function() \x7b" ++ body ++ "\x7d);\n"

@[simp] theorem quotedList_nil : quotedList [] = "" := rfl

end ModuleAtlas.Amd
