import PugTemplate.Expression

/-!
# Format of the generated code

How the code is laid out and quoted. Lines are only broken and indented when the format is
pretty.
-/

namespace PugTemplate

inductive IndentStyle where
  | space
  | tab
  deriving DecidableEq, Repr

structure Format where
  indentStyle : IndentStyle
  indentWidth : Nat
  lineBreak : String
  quoteStyle : Char
  codeQuoteStyle : Char
  pretty : Bool
  deriving DecidableEq, Repr

namespace Format

def standard : Format :=
  ⟨.space, 2, "\n", '"', '\'', false⟩

def unit (format : Format) : String :=
  match format.indentStyle with
  | .space => String.ofList (List.replicate format.indentWidth ' ')
  | .tab => "\t"

def indent (format : Format) (depth : Nat) : String :=
  String.join (List.replicate depth format.unit)

def quote (format : Format) (value : String) : String :=
  let mark := String.ofList [format.quoteStyle]
  mark ++ value ++ mark

def codeString (format : Format) (text : String) : String :=
  Expression.codeString text format.codeQuoteStyle

end Format

structure Output where
  format : Format
  text : String
  deriving DecidableEq, Repr

namespace Output

def start (format : Format) : Output :=
  ⟨format, ""⟩

def push (output : Output) (text : String) : Output :=
  { output with text := output.text ++ text }

/-- Begins a line at `depth`. Nothing happens at the very start, or if the format is not
pretty. -/
def line (output : Output) (depth : Nat) : Output :=
  if output.format.pretty && !output.text.isEmpty then
    output.push (output.format.lineBreak ++ output.format.indent depth)
  else
    output

end Output

end PugTemplate
