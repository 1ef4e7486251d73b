import JsonBinding.Files.Basic
import JsonBinding.Generation
import JsonBinding.SerializerUnit.Source

/-!
# Publication

An outcome is published into a directory: a source file for every unit, then the manifest
(`Outlet.publish`). In one outlet no file is written twice; files that were there before are
replaced.
-/

namespace JsonBinding

/-- A directory with the paths written so far, in order. -/
structure Outlet where
  directory : String
  written : List String := []
  deriving DecidableEq

/-- The name of the file that holds the manifest. -/
abbrev manifestName : String := "manifest.json"

/-- A step of a publication. It leaves its outlet behind also when it fails. -/
abbrev Publishing (m : Type → Type) (α : Type) : Type := ExceptT Fault (StateT Outlet m) α

namespace Outlet

variable {m : Type → Type} [Monad m] (files : Files m)

/-- An outlet for a directory, which is made when it is missing. -/
def create (directory : String) : ExceptT Fault m Outlet := do
  match ← (files.makeDirectory directory : m (Except String Unit)) with
  | .ok () => pure { directory }
  | .error reason => throw (.fileFailed "create output directory" directory reason)

/-- Writes a file of the directory. -/
def write (name text : String) : Publishing m Unit := do
  let o ← get
  let path := joinPath o.directory name
  if o.written.any (pathNames · = pathNames path) then
    throw (.fileFailed "write" path "file was already written in this run")
  match ← (files.write path text : m (Except String Unit)) with
  | .error reason => throw (.fileFailed "write" path reason)
  | .ok () => set { o with written := o.written ++ [path] }

/-- Writes the units of an outcome and its manifest. -/
def publish (o : Outcome) : Publishing m Unit := do
  for u in o.units do
    let file ← (u.source : Except Fault SourceFile)
    write files file.name file.text
  write files manifestName o.manifest.toJson.pretty

end Outlet

end JsonBinding
