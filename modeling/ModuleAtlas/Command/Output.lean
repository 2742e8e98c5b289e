/-!
# Output of a command

What a command leaves behind: the code that it ends with and the texts on its two channels.

## Main definitions

* `Output`, `Output.ofLines` — the output, and that of a command that succeeds with lines of text.
-/

namespace ModuleAtlas

/-- What a command leaves behind. -/
structure Output where
  /-- The code that the command ends with; zero for success. -/
  code : Nat := 0
  /-- What it reports. -/
  out : String := ""
  /-- What it says about errors. -/
  err : String := ""
  deriving DecidableEq, Repr

/-- Lines of text, each ended by a line break. -/
def textOfLines (l : List String) : String := String.join (l.map (· ++ "\n"))

/-- The output of a command that succeeds with lines of text. -/
def Output.ofLines (l : List String) : Output := { out := textOfLines l }

@[simp] theorem textOfLines_nil : textOfLines [] = "" := rfl

end ModuleAtlas
