import Vfs.Filesystem.Basic

/-!
# Finding names by listing

A pattern is searched for one directory level at a time, from what a filesystem says when it is
asked about a name or for a listing. A directory that cannot be listed contributes nothing; only the
pattern itself can be refused.
-/

namespace Vfs
set_option autoImplicit false

/-- The children of a directory whose names match a pattern. The pattern is read only if there are
children. -/
def searchDirectory (list : Text → Action (List Info)) (dir pattern : Text) :
    Action (List Text) := do
  let entries ← Action.orElse (list dir) []
  if entries.isEmpty then return []
  match Glob.scan pattern with
  | none => Action.fail Fault.badPattern.error
  | some tokens =>
    return (entries.filter fun e => Glob.matchTokens tokens e.name).map fun e => Path.child dir e.name

/-- The names that match a pattern. -/
def search (stat : Text → Action Info) (list : Text → Action (List Info)) (pattern : Text) :
    Action (List Text) :=
  if (Glob.scan pattern).isNone then Action.fail Fault.badPattern.error
  else if Glob.hasMeta pattern then
    let dir := match Path.directory pattern with
      | [] => Path.here
      | d => d
    if Glob.hasMeta dir then
      if dir.length < pattern.length then do
        let dirs ← search stat list dir
        let found ← dirs.mapM fun d => searchDirectory list d (Path.lastElement pattern)
        return found.flatten
      else Action.fail Fault.badPattern.error
    else searchDirectory list dir (Path.lastElement pattern)
  else Action.orElse (do let _ ← stat pattern; return [pattern]) []
termination_by pattern.length

end Vfs
