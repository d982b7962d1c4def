import GlslEs.Limits.Basic

/-!
# Tables of limits

What a target platform allows: a value for every limit.  A table is changed by named values;
an unknown name or a value of the wrong kind is an error and changes nothing.

* `Limits.standard`: the table used when nothing else is said.
* `Limits.override`: a table with some values replaced, in the order of their names.
-/

namespace GlslEs

/-- A value as it is written for a limit. -/
inductive LimitValue where
  | bool (value : Bool)
  | int (value : Int)
  | float (value : Double)
deriving DecidableEq, Repr

namespace LimitValue

def toText : LimitValue → String
  | .bool value => if value then "true" else "false"
  | .int value => toString value
  | .float value => value.toText

end LimitValue

/-- Why a limit cannot be set or read. -/
inductive LimitError where
  | unknown (name : String)
  | invalid (limit : Limit) (found : LimitValue)
deriving DecidableEq, Repr

namespace Limit

/-- The kind of value that a limit takes, in words. -/
def expected : Limit → String
  | .bound _ => "整数"
  | .pointSize => "数値"
  | .permission _ | .support _ => "真偽値または0/1"

end Limit

namespace LimitError

def message : LimitError → String
  | .unknown name => "未知のリソース制限です: `" ++ name ++ "`"
  | .invalid limit found =>
    "リソース制限 `" ++ limit.name ++ "` には" ++ limit.expected ++ "が必要です（指定値: " ++
      found.toText ++ "）"

end LimitError

/-- A value for every limit. -/
structure Limits where
  bound : Bound → Int
  permits : Permission → Bool
  pointSize : Double
  supports : Extension → Bool

namespace Limits

/-- The table used when nothing else is said: everything is permitted and every extension is
there. -/
def standard : Limits where
  bound := Bound.standard
  permits _ := true
  pointSize := .ofDecimal false ⟨49995, -1⟩
  supports _ := true

instance : Inhabited Limits := ⟨standard⟩

def value (l : Limits) : Limit → LimitValue
  | .bound b => .int (l.bound b)
  | .permission p => .bool (l.permits p)
  | .pointSize => .float l.pointSize
  | .support e => .bool (l.supports e)

/-- The truth value that a value stands for: also zero and one. -/
def truth? : LimitValue → Option Bool
  | .bool value => some value
  | .int 0 => some false
  | .int 1 => some true
  | _ => none

def set (l : Limits) (limit : Limit) (v : LimitValue) : Except LimitError Limits :=
  match limit, v with
  | .bound b, .int n => .ok { l with bound := fun b' => if b' = b then n else l.bound b' }
  | .bound _, _ => .error (.invalid limit v)
  | .pointSize, .float x => .ok { l with pointSize := x }
  | .pointSize, .int n => .ok { l with pointSize := .ofInt n }
  | .pointSize, _ => .error (.invalid limit v)
  | .permission p, _ =>
    match truth? v with
    | some t => .ok { l with permits := fun p' => if p' = p then t else l.permits p' }
    | none => .error (.invalid limit v)
  | .support e, _ =>
    match truth? v with
    | some t => .ok { l with supports := fun e' => if e' = e then t else l.supports e' }
    | none => .error (.invalid limit v)

/-- The table with the value of a named limit replaced. -/
def setNamed (l : Limits) (name : String) (v : LimitValue) : Except LimitError Limits :=
  match Limit.ofName? name with
  | some limit => l.set limit v
  | none => .error (.unknown name)

/-- Named values in the order of their names, the last one of each name. -/
def sortedByName {α : Type} (values : List (String × α)) : List (String × α) :=
  let last := values.foldr
    (fun v found => if found.any (·.1 == v.1) then found else v :: found) []
  last.mergeSort fun a b => a.1 < b.1 || a.1 == b.1

/-- The table with named values replaced, in the order of their names. -/
def override (l : Limits) (values : List (String × LimitValue)) : Except LimitError Limits :=
  (sortedByName values).foldlM (fun l v => l.setNamed v.1 v.2) l

def get (l : Limits) (name : String) : Except LimitError LimitValue :=
  match Limit.ofName? name with
  | some limit => .ok (l.value limit)
  | none => .error (.unknown name)

/-- A limit read as a truth value: everything but zero is true. -/
def flag (l : Limits) (limit : Limit) : Bool :=
  match l.value limit with
  | .bool value => value
  | .int value => value != 0
  | .float value =>
    match value.value with
    | .finite _ 0 _ => false
    | _ => true

def int (l : Limits) (limit : Limit) : Int :=
  match l.value limit with
  | .bool value => if value then 1 else 0
  | .int value => value
  | .float value => value.toInt

/-- Every limit with its value, in the order of the table. -/
def toList (l : Limits) : List (Limit × LimitValue) :=
  Limit.all.map fun limit => (limit, l.value limit)

/-- Every limit's name with its value, in the order of the names. -/
def toSortedList (l : Limits) : List (String × LimitValue) :=
  sortedByName (l.toList.map fun (limit, v) => (limit.name, v))

end Limits

end GlslEs
