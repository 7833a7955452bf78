import KWayMerge.Settings.Basic
import KWayMerge.Toml.Format

/-!
# Writing settings

Settings are written as a document with three entries, in a fixed order.
-/

namespace KWayMerge.Settings

open Toml

/-- The entries under which settings are written. -/
def entries (s : Settings) : Entries :=
  [("order", .string s.direction.name), ("base_block", .integer s.baseBlock),
    ("max_arity", .integer s.fanIn.count)]

/-- The settings as the text of a settings file, if there is one. -/
def toText? (f : Format) (s : Settings) : Option String :=
  f.write s.entries

end KWayMerge.Settings
