import Vfs.Filesystem.Dispatch
import Vfs.Config

/-!
# Building a filesystem from its settings

A memory filesystem starts on a volume of its own. The root of a host filesystem is made if the
settings say so, and must exist otherwise.
-/

namespace Vfs

/-- The filesystem of a config. -/
def Config.build : Config → Action Filesystem
  | .memory => Memory.newFilesystem [.char '/']
  | .host root createRoot => do
    let fs ← Host.newFilesystem root.shown fun _ => .standard
    if createRoot.isTrue then fs.mkdirAll Path.here Mode.standard
    else do let _ ← fs.stat Path.here
    return fs

end Vfs
