import GlslEs.Json.Reader
import GlslEs.Limits
import GlslEs.Toml.Reader

/-!
# Limits in files

Values for limits are given by name, as the members of a JSON object or as a TOML document
without tables.

* `Limits.overrideText`: a table of limits with the values of a text.
* `Limits.changes`: where two tables differ.
-/

namespace GlslEs

/-- Why a text gives no configuration. -/
inductive ConfigError where
  | malformed
  | limit (cause : LimitError)
deriving DecidableEq, Repr

namespace ConfigError

def message : ConfigError → String
  | .malformed => "設定の書式が不正です"
  | .limit cause => cause.message

end ConfigError

/-- The formats in which values for limits are given. -/
inductive LimitFormat where
  | json
  | toml
deriving DecidableEq, Repr, Inhabited

namespace LimitValue

def ofJson? : Json → Option LimitValue
  | .bool value => some (.bool value)
  | .int value => some (.int value)
  | .float value => some (.float value)
  | _ => none

def ofToml? : Toml.Value → Option LimitValue
  | .atom (.bool value) => some (.bool value)
  | .atom (.int value) => some (.int value)
  | .atom (.float value) => some (.float value)
  | _ => none

def toJson : LimitValue → Json
  | .bool value => .bool value
  | .int value => .int value
  | .float value => .float value

def toToml : LimitValue → Toml.Atom
  | .bool value => .bool value
  | .int value => .int value
  | .float value => .float value

def equals : LimitValue → LimitValue → Bool
  | .float x, .float y => x.compare? y == some .eq
  | v, w => v == w

end LimitValue

namespace Limits

/-- The values that the members of a JSON object give. -/
def valuesOfJson? : Json → Option (List (String × LimitValue))
  | .object members => members.mapM fun (name, v) => (LimitValue.ofJson? v).map (name, ·)
  | _ => none

/-- The values that the members of a TOML table give. -/
def valuesOfToml? : Toml.Value → Option (List (String × LimitValue))
  | .table _ members => members.mapM fun (name, v) => (LimitValue.ofToml? v).map (name, ·)
  | _ => none

def valuesOfText? (format : LimitFormat) (text : String) :
    Option (List (String × LimitValue)) :=
  match format with
  | .json => (Json.parse? text).bind valuesOfJson?
  | .toml => (Toml.parse? text).bind fun d => valuesOfToml? d.toValue

def overrideText (l : Limits) (format : LimitFormat) (text : String) : Except ConfigError Limits :=
  match valuesOfText? format text with
  | none => .error .malformed
  | some values => (l.override values).mapError .limit

/-- The limits whose values differ from those in another table, with their values. -/
def changes (l : Limits) (before : Limits) : List (Limit × LimitValue) :=
  l.toList.filter fun (limit, v) => !v.equals (before.value limit)

/-- The text of a table, in the order of the names. -/
def text (l : Limits) : LimitFormat → String
  | .json => (Json.object (l.toSortedList.map fun (name, v) => (name, v.toJson))).pretty
  | .toml => Toml.tableText (l.toSortedList.map fun (name, v) => (name, v.toToml))

end Limits

end GlslEs
