import Depot.Disk.Basic
import Depot.Plugin.Configuration
/-!
# Configurations in files

The extension of a file decides the form of the text in it.
-/

namespace Depot

/-- The form of the text in a file. -/
def TextFormat.ofPath (path : String) : Except ConfigError TextFormat :=
  match (Disk.Path.ofText path).extension? with
  | some "toml" => .ok .toml
  | some "json" => .ok .json
  | other       => .error (.unsupportedExtension other path)

namespace Configuration

/-- Reads a file. -/
def load (path : String) (d : Disk) : Except ConfigError Configuration := do
  let text ← (d.readText (.ofText path)).mapError (.io path)
  ofFormatText (← TextFormat.ofPath path) text

/-- Writes a file. -/
def save (c : Configuration) (path : String) (d : Disk) : Except ConfigError Disk := do
  let text ← c.toFormatText (← TextFormat.ofPath path)
  (d.writeFile (.ofText path) text.toUTF8).mapError (.io path)

end Configuration

end Depot
