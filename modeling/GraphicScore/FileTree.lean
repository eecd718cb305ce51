import GraphicScore.Failure

/-!
# File trees

Files in folders, and what reading a path gives. A path is walked name by name from the folder that
it starts in; the first name that cannot be passed is what the refusal speaks of.
-/

namespace GraphicScore

inductive FileTree where
  | file (content : ByteArray)
  | folder (entries : List (String × FileTree))

namespace FileTree

def nameLimit : Nat := 255

def pathLimit : Nat := 4095

/-- Where the names lead from a place. The trail holds the folders above it; the root is above itself. -/
def walk (trail : List FileTree) (here : FileTree) : List String → Except Refusal FileTree
  | [] => .ok here
  | name :: names =>
    match here with
    | .file _ => .error .notADirectory
    | .folder entries =>
      if name = "" || name = "." then walk trail here names
      else if name = ".." then
        match trail with
        | [] => walk [] here names
        | above :: trail => walk trail above names
      else if nameLimit < name.utf8ByteSize then .error .nameTooLong
      else
        match entries.lookup name with
        | none => .error .notFound
        | some next => walk (here :: trail) next names

/-- The content of the file that a path names. A path with a slash in front starts at the root. -/
def read (root : FileTree) (trail : List FileTree) (here : FileTree) (path : String) :
    Except Refusal ByteArray :=
  let names := path.splitOn "/"
  if path.isEmpty then .error .notFound
  else if pathLimit < path.utf8ByteSize then .error .nameTooLong
  else
    match if path.startsWith "/" then walk [] root names else walk trail here names with
    | .error refusal => .error refusal
    | .ok (.folder _) => .error .isADirectory
    | .ok (.file content) => .ok content

end FileTree

end GraphicScore
