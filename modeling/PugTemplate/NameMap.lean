/-!
# Maps from names

Texts by name, in the order of the names and each name once.
-/

namespace PugTemplate

abbrev NameMap := List (String × String)

namespace NameMap

def set (name value : String) : NameMap → NameMap
  | [] => [(name, value)]
  | (other, old) :: more =>
    if name == other then (name, value) :: more
    else if name < other then (name, value) :: (other, old) :: more
    else (other, old) :: set name value more

def ofList (entries : List (String × String)) : NameMap :=
  entries.foldl (fun map (name, value) => set name value map) []

def get? (map : NameMap) (name : String) : Option String :=
  List.lookup name map

end NameMap

end PugTemplate
