import Vfs.Failure.Fault
import Vfs.Text.Literal

/-!
# Settings of a filesystem

A `Config` says which filesystem to build. `connect` reads it from named settings, and refuses a
type it does not know, a setting the type does not take, and a host filesystem without a root
directory.
-/

namespace Vfs

/-- Which filesystem to build. -/
inductive Config where
  /-- A filesystem in memory. -/
  | memory
  /-- The directory `root` of the host, made first if `createRoot` holds. -/
  | host (root createRoot : Literal)

namespace Config

/-- The setting `type` says which filesystem it is, one in memory if it is not given. It takes no more
settings in memory, and `root` and `create_root` on a host. -/
def connect (settings : List (Text × Literal)) : Except Fault Config :=
  let unexpected (title : String) (keys : List Text) : Fault :=
    .badValue ("Unexpected arguments for ".text ++ title.text ++ " fs: ".text ++
      Text.quotedList keys)
  let setting (key : String) (otherwise : Literal) : Literal :=
    ((settings.find? fun s => s.1 = key.text).map (·.2)).getD otherwise
  let type := (setting "type" (.text "memory".text)).shown
  let keys := (settings.map (·.1)).filter (· ≠ "type".text)
  if type = "memory".text then
    match keys with
    | [] => .ok .memory
    | keys => .error (unexpected "memory" keys)
  else if type = "os".text then
    let root := setting "root" (.text [])
    match keys.filter fun k => k ≠ "root".text ∧ k ≠ "create_root".text with
    | [] =>
      if root.isTrue then .ok (.host root (setting "create_root" (.flag false)))
      else .error (.badValue "OS filesystem requires 'root' parameter".text)
    | keys => .error (unexpected "os" keys)
  else
    .error (.badValue ("Unsupported filesystem type: ".text ++ type ++
      ". Use 'memory' or 'os'.".text))

/-- The name of the class of a config. -/
def name : Config → Text
  | .memory => "MemFSConfig".text
  | .host _ _ => "OSFSConfig".text

/-- A config as messages show it. -/
def render : Config → Text
  | .memory => "MemFSConfig(type='memory')".text
  | .host root createRoot =>
    "OSFSConfig(type='os', root=".text ++ root.render ++ ", create_root=".text ++
      createRoot.render ++ [.char ')']

/-- The refusal of a value that is no config. -/
def unsupported (value : Literal) : Fault :=
  .badValue ("Unsupported filesystem config: ".text ++ value.render)

end Config

end Vfs
