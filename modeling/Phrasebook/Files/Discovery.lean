import Phrasebook.Distinct
import Phrasebook.Files.Tree

namespace Phrasebook

/-- A path as the names on its way, which may hold `..`. -/
abbrev FilePath := List String

def isHidden (name : String) : Bool := name.toList.head? == some '.'

def isScanned (name : String) : Bool := (FileKind.ofName? name).isSome

namespace Entry

mutual

def files (path : FilePath) : Entry → List FilePath
  | .file _ => if path.getLast?.any isScanned then [path] else []
  | .link _ => []
  | .directory entries => filesIn path entries

def filesIn (path : FilePath) : List (String × Entry) → List FilePath
  | [] => []
  | (name, entry) :: entries =>
    (if isHidden name then [] else files (path ++ [name]) entry) ++ filesIn path entries

end

def inOrder : FilePath → FilePath → Bool
  | [], _ => true
  | _ :: _, [] => false
  | a :: as, b :: bs => a < b || (a == b && inOrder as bs)

/-- The files below a root in order. The root is joined to the directory of the tree, which is left out of the paths:
where it is empty it is this directory, and a dot that it begins with means nothing. -/
def listFiles (tree : Entry) (root : String) : List FilePath :=
  match tree.find (Path.steps root), tree.named? (Path.steps root) with
  | .ok (.directory entries), _ => (filesIn (Path.names root) entries).mergeSort inOrder
  | .ok (.file content), some (.file _) => files (Path.names root) (.file content)
  | _, _ => []

/-- The files below some roots, each once, where the first root lists it. -/
def listRoots (tree : Entry) (roots : List String) : List FilePath :=
  firsts [] (roots.flatMap tree.listFiles)

end Entry

end Phrasebook
