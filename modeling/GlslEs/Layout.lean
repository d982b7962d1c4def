import GlslEs.Shader

/-!
# Layout of variables

How much room the values of a type take, counted in three ways:

* `MemberTable.slots`: four-component slots, a column each.
* `MemberTable.locations`: locations, one for every element that is no structure.
* `MemberTable.std140`: bytes in a uniform block, with the alignment of every member.

Sizes that do not fit into 64 bits stop at the largest one.
-/

namespace GlslEs

/-! ### Sizes -/

namespace Size

def largest : Nat := 0xFFFFFFFFFFFFFFFF

def add (a b : Nat) : Nat := min (a + b) largest

def mul (a b : Nat) : Nat := min (a * b) largest

/-- The least multiple of an alignment that is not below a size. -/
def roundUp (n alignment : Nat) : Nat :=
  mul ((n + alignment - 1) / alignment) alignment

end Size

/-! ### Structures -/

/-- The types of the members of structures and blocks; the first entry of a name counts. -/
abbrev MemberTable := List (String × List Ty)

namespace MemberTable

def members (t : MemberTable) (name : String) : List Ty := (t.lookup name).getD []

/-- The slots of a type whose structures are nested no deeper than the first number says. -/
def slotsWithin (t : MemberTable) : Nat → Ty → Nat
  | 0, ty => if ty.isStruct then 0 else ty.vectorSlots
  | depth + 1, ty =>
    match ty.base with
    | .struct name =>
      Size.mul ((t.members name).foldl (fun n m => Size.add n (slotsWithin t depth m)) 0)
        (ty.array.getD 1)
    | _ => ty.vectorSlots

def slots (t : MemberTable) (ty : Ty) : Nat := t.slotsWithin (t.length + 1) ty

/-- The locations of a type whose structures are nested no deeper than the first number
says. -/
def locationsWithin (t : MemberTable) : Nat → Ty → Nat
  | 0, ty => if ty.isStruct then 0 else Size.mul 1 (ty.array.getD 1)
  | depth + 1, ty =>
    match ty.base with
    | .struct name =>
      Size.mul ((t.members name).foldl (fun n m => Size.add n (locationsWithin t depth m)) 0)
        (ty.array.getD 1)
    | _ => Size.mul 1 (ty.array.getD 1)

def locations (t : MemberTable) (ty : Ty) : Nat := t.locationsWithin (t.length + 1) ty

end MemberTable

/-! ### Uniform blocks -/

/-- The alignment and the size of a value in bytes. -/
structure Extent where
  alignment : Nat
  size : Nat
deriving DecidableEq, Repr, Inhabited

namespace Extent

/-- The extent of a value that is neither a structure nor an array. -/
def ofShape : Shape → Extent
  | .scalar => ⟨4, 4⟩
  | .vector 2 => ⟨8, 8⟩
  | .vector 3 => ⟨16, 12⟩
  | .vector _ => ⟨16, 16⟩
  | .matrix columns _ => ⟨16, Size.mul 16 columns⟩

/-- The end of a member that is placed after `offset` bytes. -/
def placeAfter (offset : Nat) (e : Extent) : Nat :=
  Size.add (Size.roundUp offset e.alignment) e.size

/-- The extent of a structure with members of the given extents. -/
def ofMembers (es : List Extent) : Extent :=
  let alignment := Size.roundUp (max (es.foldl (fun n e => max n e.alignment) 0) 1) 16
  ⟨alignment, Size.roundUp (es.foldl placeAfter 0) alignment⟩

/-- The extent of an array with elements of the given extent. -/
def array (count : Nat) (e : Extent) : Extent :=
  ⟨Size.roundUp e.alignment 16, Size.mul (Size.roundUp e.size 16) count⟩

end Extent

namespace MemberTable

/-- The extent of a type whose structures are nested no deeper than the first number says. -/
def std140Within (t : MemberTable) : Nat → Ty → Extent
  | 0, ty => Extent.ofShape ty.shape
  | depth + 1, ty =>
    let element := match ty.base with
      | .struct name => Extent.ofMembers ((t.members name).map (std140Within t depth))
      | _ => Extent.ofShape ty.shape
    match ty.array with
    | some count => element.array count
    | none => element

/-- The alignment and the size of a type in a uniform block. -/
def std140 (t : MemberTable) (ty : Ty) : Extent := t.std140Within (t.length + 1) ty

/-- The size of a uniform block with members of the given types. -/
def blockSize (t : MemberTable) (members : List Ty) : Nat :=
  Size.roundUp ((members.map t.std140).foldl Extent.placeAfter 0) 16

end MemberTable

namespace Shader

/-- The members of the structures and blocks at the top of a shader; of two definitions with one
name the later one counts. -/
def memberTable (s : Shader) : MemberTable :=
  let types (ms : List Member) := ms.map (·.ty)
  (s.declarations.filterMap fun
    | .struct d => some (d.name, types d.members)
    | .globals d => d.struct.map fun d => (d.name, types d.members)
    | .block b => some (b.name, types b.members)
    | _ => none).reverse

/-- The heads of all functions, in order. -/
def prototypes (s : Shader) : List Prototype :=
  s.declarations.filterMap fun
    | .prototype p => some p
    | .function f => some f.prototype
    | _ => none

end Shader

end GlslEs
