import PugTemplate.Format

/-!
# Fragments of generated code

The generated code is a sequence of fragments: text and echoes, tags, statements that open, turn
or close a block of code, and the parts of a switch. The fragments say what each piece is for;
`render` writes them out.
-/

namespace PugTemplate

inductive CodeLine where
  | plain (statement : String)
  | ifHead (condition : String)
  | elseIfHead (condition : String)
  | elseHead
  | loopHead (head : String)
  | doHead
  | doTail (condition : String)
  /-- A line of code that opens a block, perhaps after closing the one before. -/
  | codeHead (head : String)
  | close
  deriving DecidableEq, Repr

def CodeLine.code : CodeLine → String
  | plain statement => statement
  | ifHead condition => s!"if ({condition}) \x7b"
  | elseIfHead condition => s!"\x7d elseif ({condition}) \x7b"
  | elseHead => "\x7d else \x7b"
  | loopHead head => s!"{head} \x7b"
  | doHead => "do \x7b"
  | doTail condition => s!"\x7d while ({condition});"
  | codeHead head => head
  | close => "\x7d"

inductive Fragment where
  | line (depth : Nat)
  | text (value : String)
  /-- The line break between two texts that follow each other. -/
  | textBreak
  | echo (code : String)
  /-- Text that is complete as it is: declarations, comments, results of filters. -/
  | raw (text : String)
  | startTag (tag attributes : String)
  | endTag (tag : String)
  | loneTag (tag attributes : String) (slash : Bool)
  | code (statement : CodeLine)
  | switchHead (subject : String)
  /-- The label of a branch; the default branch has no value. -/
  | label (value : Option String)
  | leave
  | enter
  | breakOut
  | switchEnd
  deriving DecidableEq, Repr

namespace Fragment

/-- What a fragment writes, line beginnings apart. -/
def written : Fragment → String
  | line _ => ""
  | text value => value
  | textBreak => "\n"
  | echo value => "<?=" ++ value ++ "?>"
  | raw value => value
  | startTag tag attributes => "<" ++ tag ++ attributes ++ ">"
  | endTag tag => "</" ++ tag ++ ">"
  | loneTag tag attributes slash => "<" ++ tag ++ attributes ++ (if slash then "/>" else ">")
  | code statement => "<?php " ++ statement.code ++ "?>"
  | switchHead subject => s!"<?php switch ({subject}) \x7b"
  | label (some value) => s!" case {value}:"
  | label none => " default:"
  | leave => " ?>"
  | enter => "<?php"
  | breakOut => " break;"
  | switchEnd => " \x7d?>"

def write (output : Output) : Fragment → Output
  | line depth => output.line depth
  | fragment => output.push fragment.written

def render (format : Format) (fragments : List Fragment) : String :=
  (fragments.foldl write (Output.start format)).text

end Fragment

end PugTemplate
