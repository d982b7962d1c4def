import GlslEs.Token.Lexer

/-!
# Short names

Short names are numbered: the single letters come first, then the names with two characters and
so on.  The first character changes fastest.

* `ShortName.nth`: the name with a number.
* `ShortName.assign`: names for symbols, the shortest one for the symbol that is used most.
-/

namespace GlslEs

namespace ShortName

/-! ### Numbering -/

def letters : List Char := "abcdefghijklmnopqrstuvwxyzABCDEFGHIJKLMNOPQRSTUVWXYZ".toList

def nameChars : List Char := letters ++ "0123456789_".toList

/-- The characters after the first one in the name with a number. -/
def tail (n : Nat) : List Char :=
  if h : n = 0 then []
  else nameChars.getD ((n - 1) % 63) '_' :: tail ((n - 1) / 63)
termination_by n
decreasing_by omega

/-- The name with a number, as characters. -/
def nthChars (n : Nat) : List Char := letters.getD (n % 52) '_' :: tail (n / 52)

def nth (n : Nat) : String := String.ofList (nthChars n)

/-! ### Names that cannot be used -/

/-- Words that have a meaning of their own, now or later. -/
def reservedWords : List String :=
  ["active", "asm", "atomic_uint", "attribute", "bool", "break", "buffer", "bvec2", "bvec3",
    "bvec4", "case", "cast", "centroid", "class", "coherent", "common", "const", "continue",
    "default", "discard", "do", "double", "dvec2", "dvec3", "dvec4", "else", "enum", "extern",
    "external", "false", "filter", "fixed", "flat", "float", "for", "fvec2", "fvec3", "fvec4",
    "goto", "half", "highp", "hvec2", "hvec3", "hvec4", "if", "in", "inline", "inout", "input",
    "int", "interface", "invariant", "isampler2D", "isampler2DArray", "isampler3D",
    "isamplerCube", "ivec2", "ivec3", "ivec4", "layout", "long", "lowp", "main", "mat2",
    "mat2x2", "mat2x3", "mat2x4", "mat3", "mat3x2", "mat3x3", "mat3x4", "mat4", "mat4x2",
    "mat4x3", "mat4x4", "mediump", "namespace", "noinline", "noperspective", "out", "output",
    "packed", "partition", "patch", "precise", "precision", "public", "readonly", "resource",
    "restrict", "return", "sample", "sampler1D", "sampler1DShadow", "sampler2D",
    "sampler2DArray", "sampler2DArrayShadow", "sampler2DRect", "sampler2DRectShadow",
    "sampler2DShadow", "sampler3D", "sampler3DRect", "samplerCube", "samplerCubeShadow",
    "samplerExternalOES", "shared", "short", "sizeof", "smooth", "static", "struct",
    "subroutine", "superp", "switch", "template", "this", "true", "typedef", "uint", "uniform",
    "union", "unsigned", "usampler2D", "usampler2DArray", "usampler3D", "usamplerCube", "using",
    "uvec2", "uvec3", "uvec4", "varying", "vec2", "vec3", "vec4", "void", "volatile", "while",
    "writeonly"]

/-- Whether a name can be given to a symbol where the listed names are taken. -/
def isUsable (taken : List String) (name : String) : Bool :=
  !"gl_".toList.isPrefixOf name.toList && !Lexer.hasDoubleUnderscore name.toList &&
    !reservedWords.contains name && !taken.contains name

/-! ### Assigning -/

/-- The number of the first usable name from a number on, looking at most so far. -/
def nextWithin (taken : List String) : Nat → Nat → Nat
  | 0, n => n
  | room + 1, n => if isUsable taken (nth n) then n else nextWithin taken room (n + 1)

/-- The number of the first usable name from a number on.  Names of letters alone are usable
unless they are taken or reserved, and among so many names there are enough of them. -/
def next (taken : List String) (n : Nat) : Nat :=
  let size := taken.length + reservedWords.length + n + 1
  nextWithin taken (64 * size * size) n

/-- Usable names for a list, from a number on. -/
def allot {α : Type} (taken : List String) (n : Nat) : List α → List (α × String)
  | [] => []
  | a :: as =>
    let k := next taken n
    (a, nth k) :: allot taken (k + 1) as

/-- The positions of a list, the largest numbers first and equal ones in order. -/
def byFrequency (uses : List Nat) : List Nat :=
  (List.range uses.length).mergeSort fun a b => uses.getD b 0 ≤ uses.getD a 0

/-- Usable names for symbols that are used so often: pairs of a position and a name. -/
def assign (taken : List String) (uses : List Nat) : List (Nat × String) :=
  allot taken 0 (byFrequency uses)

end ShortName

end GlslEs
