import PugTemplate.Text.Blank

/-!
# File paths

A path is kept as it was written. Its components are the pieces between slashes; empty pieces
and single dots name nothing, except for a dot that begins a relative path.
-/

namespace PugTemplate

structure Path where
  text : String
  deriving DecidableEq, Repr, Inhabited

namespace Path

def isAbsolute (path : Path) : Bool :=
  path.text.toList.head? == some '/'

/-- The path `name` seen from the directory `base`. An absolute name stands for itself. -/
def join (base : Path) (name : String) : Path :=
  if name.toList.head? == some '/' then
    ⟨name⟩
  else if base.text.isEmpty || base.text.toList.getLast? == some '/' then
    ⟨base.text ++ name⟩
  else
    ⟨base.text ++ "/" ++ name⟩

structure Component where
  name : List Char
  finish : Nat
  deriving DecidableEq, Repr

def componentsFrom (index : Nat) : List (List Char) → List Component
  | [] => []
  | piece :: more =>
    let finish := index + piece.length
    if piece.isEmpty || (piece == ['.'] && index != 0) then
      componentsFrom (finish + 1) more
    else
      ⟨piece, finish⟩ :: componentsFrom (finish + 1) more

def components (path : Path) : List Component :=
  componentsFrom 0 (Text.fields (· == '/') path.text.toList)

/-- The path without its last component. The root and the empty path have no parent. -/
def parent? (path : Path) : Option Path :=
  match path.components.reverse with
  | [] => none
  | [_] => some ⟨if path.isAbsolute then "/" else ""⟩
  | _ :: before :: _ => some ⟨String.ofList (path.text.toList.take before.finish)⟩

def lastName? (path : Path) : Option Component :=
  match path.components.getLast? with
  | none => none
  | some last => if last.name == ['.'] || last.name == ['.', '.'] then none else some last

def fileName? (path : Path) : Option String :=
  path.lastName?.map fun last => String.ofList last.name

/-- A file name cut at its last dot. A name without a dot, or with one only at its front, is all
stem. -/
def splitName (name : List Char) : List Char × Option (List Char) :=
  let extension := (name.reverse.takeWhile (· != '.')).reverse
  let stem := name.take (name.length - extension.length - 1)
  if extension.length == name.length || stem.isEmpty then (name, none) else (stem, some extension)

def extension? (path : Path) : Option String :=
  path.lastName?.bind fun last => (splitName last.name).2.map String.ofList

def withExtension (path : Path) (extension : String) : Path :=
  match path.lastName? with
  | none => path
  | some last =>
    let stem := (splitName last.name).1
    let kept := path.text.toList.take (last.finish - last.name.length + stem.length)
    ⟨String.ofList kept ++ "." ++ extension⟩

end Path

end PugTemplate
