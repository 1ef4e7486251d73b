/-!
# Files

The operations on files that a command needs (`Files`), each of which may be refused for a reason in
words, and the paths of files in a directory (`joinPath`). Paths are compared by the names in them
(`pathNames`).
-/

namespace JsonBinding

/-- Operations on files. -/
structure Files (m : Type → Type) where
  /-- The text of a file. -/
  read : (path : String) → m (Except String String)
  /-- Makes a directory and those above it, as far as they are missing. -/
  makeDirectory : (path : String) → m (Except String Unit)
  /-- Gives a file a text. -/
  write : (path text : String) → m (Except String Unit)

/-- The path of a file in a directory. -/
def joinPath (directory name : String) : String :=
  if directory.isEmpty || name.startsWith "/" then name
  else if directory.endsWith "/" then directory ++ name
  else directory ++ "/" ++ name

/-- The names in a path, where an empty name in front stands for the root. The others lead somewhere:
those that are empty or a single dot are passed over. -/
def pathNames (path : String) : List (List Char) :=
  match path.toList.splitOn '/' with
  | [] | [[]] => []
  | first :: rest => first :: rest.filter fun name => name ≠ [] ∧ name ≠ ['.']

end JsonBinding
