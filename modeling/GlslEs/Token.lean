import GlslEs.Location
import GlslEs.Number.Single
import GlslEs.Ty

/-!
# Tokens

What a source text is made of once blanks and comments are gone: names, literals, words of
the language, punctuation and the two directives that carry meaning.  A `Lexeme` is a token
with the place where it starts.

* `Punct.text`, `Keyword.text`: the spelling of what has a fixed spelling.
* `Token.ofWord`: the token that a word stands for.
* `Token.describe`: how a token is named in a message.
-/

namespace GlslEs

/-- Punctuation and operator signs. -/
inductive Punct where
  | leftParen
  | rightParen
  | leftBrace
  | rightBrace
  | leftBracket
  | rightBracket
  | comma
  | dot
  | semicolon
  | colon
  | question
  | plus
  | minus
  | star
  | slash
  | percent
  | caret
  | ampersand
  | pipe
  | tilde
  | bang
  | equal
  | less
  | greater
  | plusEqual
  | minusEqual
  | starEqual
  | slashEqual
  | percentEqual
  | caretEqual
  | ampersandEqual
  | pipeEqual
  | leftShiftEqual
  | rightShiftEqual
  | bangEqual
  | equalEqual
  | lessEqual
  | greaterEqual
  | ampersandAmpersand
  | pipePipe
  | caretCaret
  | plusPlus
  | minusMinus
  | leftShift
  | rightShift
deriving DecidableEq, Repr

namespace Punct

def text : Punct → String
  | .leftParen => "("
  | .rightParen => ")"
  | .leftBrace => "\x7b"
  | .rightBrace => "\x7d"
  | .leftBracket => "["
  | .rightBracket => "]"
  | .comma => ","
  | .dot => "."
  | .semicolon => ";"
  | .colon => ":"
  | .question => "?"
  | .plus => "+"
  | .minus => "-"
  | .star => "*"
  | .slash => "/"
  | .percent => "%"
  | .caret => "^"
  | .ampersand => "&"
  | .pipe => "|"
  | .tilde => "~"
  | .bang => "!"
  | .equal => "="
  | .less => "<"
  | .greater => ">"
  | .plusEqual => "+="
  | .minusEqual => "-="
  | .starEqual => "*="
  | .slashEqual => "/="
  | .percentEqual => "%="
  | .caretEqual => "^="
  | .ampersandEqual => "&="
  | .pipeEqual => "|="
  | .leftShiftEqual => "<<="
  | .rightShiftEqual => ">>="
  | .bangEqual => "!="
  | .equalEqual => "=="
  | .lessEqual => "<="
  | .greaterEqual => ">="
  | .ampersandAmpersand => "&&"
  | .pipePipe => "||"
  | .caretCaret => "^^"
  | .plusPlus => "++"
  | .minusMinus => "--"
  | .leftShift => "<<"
  | .rightShift => ">>"

/-- Every sign, longer spellings first. -/
def longestFirst : List Punct :=
  [.leftShiftEqual, .rightShiftEqual,
    .plusEqual, .minusEqual, .starEqual, .slashEqual, .percentEqual, .caretEqual,
    .ampersandEqual, .pipeEqual, .bangEqual, .equalEqual, .lessEqual, .greaterEqual,
    .ampersandAmpersand, .pipePipe, .caretCaret, .plusPlus, .minusMinus, .leftShift, .rightShift,
    .leftParen, .rightParen, .leftBrace, .rightBrace, .leftBracket, .rightBracket, .comma, .dot,
    .semicolon, .colon, .question, .plus, .minus, .star, .slash, .percent, .caret, .ampersand,
    .pipe, .tilde, .bang, .equal, .less, .greater]

end Punct

/-- The words of the language that are neither types nor precisions.  A word that Lean keeps
for itself ends in an underscore. -/
inductive Keyword where
  | const
  | uniform
  | buffer
  | shared
  | attribute_
  | varying
  | in_
  | out
  | inout
  | centroid
  | flat
  | smooth
  | invariant
  | layout
  | precision
  | struct
  | if_
  | else_
  | for_
  | while_
  | do_
  | switch
  | case_
  | default
  | break_
  | continue_
  | return_
  | discard
deriving DecidableEq, Repr

namespace Keyword

def text : Keyword → String
  | .const => "const"
  | .uniform => "uniform"
  | .buffer => "buffer"
  | .shared => "shared"
  | .attribute_ => "attribute"
  | .varying => "varying"
  | .in_ => "in"
  | .out => "out"
  | .inout => "inout"
  | .centroid => "centroid"
  | .flat => "flat"
  | .smooth => "smooth"
  | .invariant => "invariant"
  | .layout => "layout"
  | .precision => "precision"
  | .struct => "struct"
  | .if_ => "if"
  | .else_ => "else"
  | .for_ => "for"
  | .while_ => "while"
  | .do_ => "do"
  | .switch => "switch"
  | .case_ => "case"
  | .default => "default"
  | .break_ => "break"
  | .continue_ => "continue"
  | .return_ => "return"
  | .discard => "discard"

def all : List Keyword :=
  [.const, .uniform, .buffer, .shared, .attribute_, .varying, .in_, .out, .inout, .centroid, .flat,
    .smooth, .invariant, .layout, .precision, .struct, .if_, .else_, .for_, .while_, .do_, .switch,
    .case_, .default, .break_, .continue_, .return_, .discard]

def ofText? (word : String) : Option Keyword :=
  all.find? (·.text == word)

/-- Whether a declaration may start with the word as a qualifier. -/
def isQualifier : Keyword → Bool
  | .const | .uniform | .buffer | .shared | .attribute_ | .varying | .in_ | .out | .inout
  | .centroid | .flat | .smooth | .invariant | .layout => true
  | _ => false

end Keyword

/-- A token. -/
inductive Token where
  | identifier (name : String)
  | typeName (ty : Ty)
  | int (value : UInt32)
  | uint (value : UInt32)
  | float (value : Single)
  | bool (value : Bool)
  | version (number : Nat) (profile : Option String)
  | extension (name behavior : String)
  | punct (sign : Punct)
  | keyword (word : Keyword)
  | precision (precision : Precision)
  | endOfText
deriving DecidableEq, Repr, Inhabited

namespace Token

def reservedWords : List String :=
  ["asm", "class", "union", "enum", "typedef", "template", "this", "resource", "goto", "inline",
    "noinline", "public", "static", "extern", "external", "interface", "long", "short", "double",
    "half", "fixed", "unsigned", "superp", "input", "output", "hvec2", "hvec3", "hvec4", "dvec2",
    "dvec3", "dvec4", "fvec2", "fvec3", "fvec4", "sampler3DRect", "filter", "sizeof", "cast",
    "namespace", "using", "volatile", "patch", "sample", "subroutine", "common", "partition",
    "active", "noperspective", "atomic_uint", "coherent", "restrict", "readonly", "writeonly",
    "precise", "image2D", "iimage2D", "uimage2D", "image3D", "iimage3D", "uimage3D", "imageCube",
    "iimageCube", "uimageCube", "image2DArray", "iimage2DArray", "uimage2DArray"]

def isReservedWord (word : String) : Bool :=
  reservedWords.contains word

/-- The token that a word stands for; a word of no other use is an identifier. -/
def ofWord (word : String) : Token :=
  match word with
  | "true" => .bool true
  | "false" => .bool false
  | _ =>
    match Keyword.ofText? word with
    | some k => .keyword k
    | none =>
      match Precision.ofKeyword? word with
      | some p => .precision p
      | none =>
        match Ty.ofKeyword? word with
        | some t => .typeName t
        | none => .identifier word

/-- Whether a declaration may start with the token as a qualifier. -/
def isQualifier : Token → Bool
  | .keyword k => k.isQualifier
  | .precision _ => true
  | _ => false

def describe : Token → String
  | .identifier name => "識別子 '" ++ name ++ "'"
  | .typeName ty => "型 '" ++ ty.name ++ "'"
  | .int value => "整数リテラル " ++ toString value.toNat
  | .uint value => "整数リテラル " ++ toString value.toNat ++ "u"
  | .float value => "浮動小数点リテラル " ++ value.toText
  | .bool value => if value then "true" else "false"
  | .version number _ => "#version " ++ toString number
  | .extension name _ => "#extension " ++ name
  | .punct sign => sign.text
  | .keyword word => word.text
  | .precision p => p.word
  | .endOfText => "EOF"

end Token

/-- A token and the place where it starts. -/
structure Lexeme where
  token : Token
  loc : Location
deriving DecidableEq, Repr, Inhabited

end GlslEs
