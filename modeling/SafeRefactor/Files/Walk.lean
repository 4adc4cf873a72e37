import SafeRefactor.Files.Ignore
import SafeRefactor.Files.Store
import SafeRefactor.Sort

/-!
# Finding source files

The Python files below a list of roots. A root that is a file is taken as it is. Below a directory,
hidden entries and those that an ignore file leaves out are passed over, with everything in them;
the files of a version control system's ignore lists count only inside one of its working trees.
-/

set_option autoImplicit false

namespace SafeRefactor.Walk

def extensions : List String := ["py", "pyi"]

def rulesAt (s : Store) (dir : Location) (file : List String) : List Ignore.Rule :=
  match s.readAt (dir ++ file) with
  | .ok text => Ignore.rules text
  | .error _ => []

def isTop (s : Store) (dir : Location) : Bool := (s.item? (dir ++ [".git"])).isSome

def above (l : Location) : List Location := (List.range l.length).reverse.map l.take

def upToTop (s : Store) : List Location → List Location
  | [] => []
  | d :: ds => if isTop s d then [d] else d :: upToTop s ds

def ask (s : Store) (file : List String) (l : Location) (isDirectory : Bool)
    (dirs : List Location) :
    Option Bool :=
  dirs.findSome? fun d =>
    Ignore.verdict? (rulesAt s d file) (Text.join "/" (l.drop d.length)) isDirectory

def ignored? (s : Store) (l : Location) (isDirectory : Bool) : Option Bool :=
  let dirs := above l
  let tree := if dirs.any fun d => isTop s d || (s.item? (d ++ [".jj"])).isSome then
    upToTop s dirs else []
  (ask s [".ignore"] l isDirectory dirs).orElse fun _ =>
    (ask s [".gitignore"] l isDirectory tree).orElse fun _ =>
      ask s [".git", "info", "exclude"] l isDirectory tree

def isHidden (name : String) : Bool := name.toList.head? = some '.'

def isSkipped (s : Store) (l : Location) (isDirectory : Bool) : Bool :=
  (ignored? s l isDirectory).getD (isHidden (l.getLastD ""))

def isReached (s : Store) (root : Location) (l : Location) (isDirectory : Bool) : Bool :=
  let onTheWay := (above l).filter fun d => root.length < d.length
  !onTheWay.any (isSkipped s · true) && !isSkipped s l isDirectory

def pathBelow (path : String) (names : List String) : String := names.foldl Path.join path

def isSource (exclude : List (List Pattern.Token)) (path : String) (l : Location) : Bool :=
  (Path.extension? (l.getLastD "")).any extensions.contains &&
    !exclude.any (Pattern.matchTokens · path.toList)

def below (s : Store) (exclude : List (List Pattern.Token)) (path : String) (root : Location) :
    List String :=
  let found := s.items.filterMap fun (l, i) =>
    match i with
    | .directory => none
    | .file _ =>
      let shown := pathBelow path (l.drop root.length)
      if root.isPrefixOf l ∧ isSource exclude shown l ∧ isReached s root l false then
        some shown else none
  sortBy Path.le found

def hiddenBelow (s : Store) (path : String) (root : Location) : List String :=
  let found := s.items.filterMap fun (l, i) =>
    let onTheWay := (above l).filter fun d => root.length < d.length
    if root.isPrefixOf l ∧ root.length < l.length ∧ !onTheWay.any (isSkipped s · true) ∧
        (ignored? s l (i = .directory)).isNone ∧ isHidden (l.getLastD "") then
      some (pathBelow path (l.drop root.length))
    else none
  sortBy Path.le found

structure Found where
  files : List String := []
  hidden : List String := []
  deriving DecidableEq, Repr

def walk (s : Store) (cwd : Location) (exclude : List (List Pattern.Token)) :
    List String → Except String Found
  | [] => .ok {}
  | root :: roots => do
    let here : Found ← match s.locate cwd root with
      | .error _ => throw root
      | .ok l =>
        match s.item? l with
        | none => throw root
        | some (.file _) => pure { files := [root] }
        | some .directory =>
          pure { files := below s exclude root l, hidden := hiddenBelow s root l }
    let rest ← walk s cwd exclude roots
    return { files := here.files ++ rest.files, hidden := here.hidden ++ rest.hidden }

def readPatterns : List String → Except (String × Pattern.Fault) (List (List Pattern.Token))
  | [] => .ok []
  | p :: ps =>
    match Pattern.read p with
    | .error f => .error (p, f)
    | .ok ts =>
      match readPatterns ps with
      | .error e => .error e
      | .ok rest => .ok (ts :: rest)

end SafeRefactor.Walk
