import PugTemplate.Diagnostic

/-!
# Diagnostics with an excerpt

A failure is shown with the file, the heading and message, the line at fault with a caret under
the offset, and the advice. A diagnostic that belongs to a file quotes that file.
-/

namespace PugTemplate

structure Palette where
  alarm : String
  faint : String
  advice : String
  reset : String
  deriving DecidableEq, Repr

namespace Palette

def plain : Palette :=
  ⟨"", "", "", ""⟩

def colored : Palette :=
  ⟨"\x1b[1;31m", "\x1b[2m", "\x1b[1;38;5;73m", "\x1b[0m"⟩

end Palette

namespace Diagnostic

def sourceLine? (diagnostic : Diagnostic) (source : String) : Option String :=
  match diagnostic.position.line with
  | 0 => none
  | line + 1 => (Text.lines source.toList)[line]?.map String.ofList

/-- The line at fault between two rulers, the second with a caret below the fault. -/
def excerpt (diagnostic : Diagnostic) (palette : Palette) (line : String) : String :=
  let number := toString diagnostic.position.line
  let width := max number.length 2
  let ruler (label : String) := palette.faint ++ Text.padLeft width label ++ " |" ++ palette.reset
  let spaces := String.ofList (List.replicate diagnostic.position.offset ' ')
  ruler "" ++ "\n" ++ ruler number ++ " " ++ line ++ "\n" ++
    ruler "" ++ " " ++ spaces ++ palette.alarm ++ "^" ++ palette.reset ++ "\n"

def adviceLines (palette : Palette) (help : String) : String :=
  match (Text.lines help.toList).map String.ofList with
  | [] => ""
  | first :: more =>
    " " ++ palette.advice ++ "help:" ++ palette.reset ++ " " ++ first ++ "\n" ++
      String.join (more.map fun line => "       " ++ line ++ "\n")

/-- The report on a diagnostic in `source`, which is called `filename`. `contents` gives the text
of the file a diagnostic belongs to. -/
def render (diagnostic : Diagnostic) (palette : Palette) (contents : Path → String)
    (source filename : String) : String :=
  let (source, filename) := match diagnostic.path with
    | some path => (contents path, path.text)
    | none => (source, filename)
  let line := toString diagnostic.position.line
  let column := toString (diagnostic.position.offset + 1)
  let place := " " ++ palette.faint ++ "file:" ++ palette.reset ++ s!" {filename}:{line}:{column}\n"
  let title := palette.alarm ++ "error:" ++ palette.reset ++
    s!" {diagnostic.kind.heading}: {diagnostic.message}\n"
  let quoted := match diagnostic.sourceLine? source with
    | some text => diagnostic.excerpt palette text
    | none => ""
  let advice := match diagnostic.help with
    | some help => "\n" ++ adviceLines palette help
    | none => ""
  "\n" ++ place ++ title ++ quoted ++ advice ++ "\n"

end Diagnostic

def Failure.render (failure : Failure) (palette : Palette) (contents : Path → String)
    (source filename : String) : String :=
  match failure with
  | .template diagnostic => diagnostic.render palette contents source filename
  | .unreadable _ _ => "\n" ++ palette.alarm ++ "error:" ++ palette.reset ++ s!" {failure.describe}\n\n"

end PugTemplate
