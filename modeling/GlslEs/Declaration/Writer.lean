import GlslEs.Declaration
import GlslEs.Expr.Writer

/-!
# Writing declarations

The pieces of qualifiers, array lengths, structures, variables, blocks and the heads of
functions.  A type is written by its word alone; the length of an array stands behind the name.
-/

namespace GlslEs

def layoutPieces (entries : List LayoutEntry) : List Piece :=
  if entries.isEmpty then []
  else
    [.word "layout", .tight "("] ++
      Piece.commaSeparated (entries.map fun e =>
        .tight e.name :: (e.value.map fun n => Piece.tight ("=" ++ toString n)).toList) ++
      [.tight ")", .space]

def TypeQualifiers.pieces (q : TypeQualifiers) : List Piece :=
  layoutPieces q.layout ++
    (if q.invariant then [.word "invariant"] else []) ++
    (q.interpolation.map fun i => Piece.word i.word).toList ++
    (if q.centroid then [.word "centroid"] else []) ++
    (q.storage.map fun s => Piece.word s.word).toList ++
    (q.precision.map fun p => Piece.word p.word).toList

def ArrayLength.pieces : ArrayLength → List Piece
  | .sized e => .tight "[" :: (e.pieces Level.sequence ++ [.tight "]"])
  | .unsized => [.tight "[]"]

/-- The pieces of an array length that may be missing. -/
def arrayPieces (array : Option ArrayLength) : List Piece :=
  (array.map ArrayLength.pieces).getD []

def Member.pieces (m : Member) : List Piece :=
  .line :: layoutPieces m.layout ++
    (m.precision.map fun p => Piece.word p.word).toList ++
    [.word m.ty.baseName, .word m.name] ++ arrayPieces m.array ++ [.tight ";"]

def memberPieces (ms : List Member) : List Piece :=
  Piece.openBrace ++ ms.flatMap Member.pieces ++ Piece.closeBrace

def StructDef.pieces (d : StructDef) : List Piece :=
  [.word "struct", .word d.name] ++ memberPieces d.members

def Declarator.pieces (x : Declarator) : List Piece :=
  .word x.name :: arrayPieces x.array ++
    (x.value.map fun e => Piece.operator "=" :: e.pieces Level.assign).getD []

def Declaration.pieces (d : Declaration) : List Piece :=
  d.qualifiers.pieces ++
    (match d.struct with
      | some s => s.pieces ++ if d.declarators.isEmpty then [] else [.space]
      | none => [.word d.ty.baseName]) ++
    Piece.commaSeparated (d.declarators.map Declarator.pieces)

def InterfaceBlock.pieces (b : InterfaceBlock) : List Piece :=
  b.qualifiers.pieces ++ [.word b.name] ++ memberPieces b.members ++
    (match b.instanceName with
      | some name => [.space, .word name] ++ arrayPieces b.array
      | none => []) ++
    [.tight ";"]

def Direction.pieces : Direction → List Piece
  | .input => []
  | d => [.word d.word]

def Parameter.pieces (x : Parameter) : List Piece :=
  (if x.isConst then [.word "const"] else []) ++ x.direction.pieces ++
    (x.precision.map fun p => Piece.word p.word).toList ++
    [.word x.ty.baseName] ++ (x.name.map Piece.word).toList ++ arrayPieces x.array

def Prototype.pieces (p : Prototype) : List Piece :=
  (p.precision.map fun p => Piece.word p.word).toList ++
    [.word p.result.baseName, .word p.name, .tight "("] ++
    Piece.commaSeparated (p.parameters.map Parameter.pieces) ++ [.tight ")"]

end GlslEs
