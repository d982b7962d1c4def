import GlslEs.Token

/-!
# Errors of form

Why a source text is not a shader at all: the causes found while reading tokens and while
reading declarations, statements and expressions.  Reading stops at the first of them.

* `Expected`: what had to stand where something else was found.
* `SyntaxProblem.message`: the wording of a cause.
-/

namespace GlslEs

/-- What had to stand at a place. -/
inductive Expected where
  | afterPrecision
  | layoutOpen
  | layoutClose
  | type
  | arrayClose
  | structWord
  | structName
  | structOpen
  | memberName
  | memberEnd
  | blockName
  | blockOpen
  | blockEnd
  | functionName
  | functionOpen
  | functionClose
  | variableName
  | declarationEnd
  | bodyOpen
  | whileOpen
  | whileClose
  | doWhile
  | doEnd
  | switchOpen
  | switchClose
  | caseColon
  | defaultColon
  | returnEnd
  | jumpEnd
  | expressionEnd
  | ifOpen
  | ifClose
  | forOpen
  | forFirst
  | forSecond
  | forClose
  | ternaryColon
  | indexClose
  | fieldName
  | parenClose
  | bracketClose
  | argumentsOpen
  | argumentsClose
  | expression
deriving DecidableEq, Repr

namespace Expected

def text : Expected → String
  | .afterPrecision => "精度宣言の後に ';' が必要です"
  | .layoutOpen => "layout の後に '(' が必要です"
  | .layoutClose => "layout 修飾子の後に ')' が必要です"
  | .type => "型が必要です"
  | .arrayClose => "配列サイズの後に ']' が必要です"
  | .structWord => "struct が必要です"
  | .structName => "構造体には名前が必要です"
  | .structOpen => "構造体名の後に '\x7b' が必要です"
  | .memberName => "メンバ名が必要です"
  | .memberEnd => "メンバ宣言の後に ';' が必要です"
  | .blockName => "ブロック名が必要です"
  | .blockOpen => "ブロック名の後に '\x7b' が必要です"
  | .blockEnd => "ブロック宣言の後に ';' が必要です"
  | .functionName => "関数名が必要です"
  | .functionOpen => "関数名の後に '(' が必要です"
  | .functionClose => "パラメータの後に ')' が必要です"
  | .variableName => "変数名が必要です"
  | .declarationEnd => "宣言の後に ';' が必要です"
  | .bodyOpen => "'\x7b' が必要です"
  | .whileOpen => "while の後に '(' が必要です"
  | .whileClose => "while 条件の後に ')' が必要です"
  | .doWhile => "do 本体の後に while が必要です"
  | .doEnd => "do-while の後に ';' が必要です"
  | .switchOpen => "switch の後に '(' が必要です"
  | .switchClose => "switch 式の後に ')' が必要です"
  | .caseColon => "case ラベルの後に ':' が必要です"
  | .defaultColon => "default の後に ':' が必要です"
  | .returnEnd => "return の後に ';' が必要です"
  | .jumpEnd => "';' が必要です"
  | .expressionEnd => "式の後に ';' が必要です"
  | .ifOpen => "if の後に '(' が必要です"
  | .ifClose => "if 条件の後に ')' が必要です"
  | .forOpen => "for の後に '(' が必要です"
  | .forFirst => "for 初期化式の後に ';' が必要です"
  | .forSecond => "for 条件式の後に ';' が必要です"
  | .forClose => "for ヘッダの後に ')' が必要です"
  | .ternaryColon => "条件式の ':' が必要です"
  | .indexClose => "添字の後に ']' が必要です"
  | .fieldName => "'.' の後にフィールド名が必要です"
  | .parenClose => "')' が必要です"
  | .bracketClose => "']' が必要です"
  | .argumentsOpen => "'(' が必要です"
  | .argumentsClose => "引数の後に ')' が必要です"
  | .expression => "式が必要です"

end Expected

/-- A token of the wrong kind where only one kind has a meaning. -/
inductive Needed where
  | precision
  | type
  | layoutName
  | layoutValue
  | arraySize
deriving DecidableEq, Repr

namespace Needed

def text : Needed → String
  | .precision => "精度修飾子が必要です"
  | .type => "型が必要です"
  | .layoutName => "layout 修飾子名が必要です"
  | .layoutValue => "layout の値には整数が必要です"
  | .arraySize => "配列コンストラクタのサイズには整数リテラルが必要です"

end Needed

/-- Why a text is not a shader. -/
inductive SyntaxProblem where
  | hashInsideLine
  | unknownCharacter (c : Char)
  | reservedWord (word : String)
  | doubleUnderscore (word : String)
  | hexWithoutDigits
  | integerTooLarge (text : String)
  | exponentWithoutDigits
  | letterAfterFloat (text : String)
  | malformedOctal (text : String)
  | letterAfterInteger
  | versionWithoutNumber
  | versionWithTail
  | malformedExtension
  | unknownDirective (word : String)
  | unclosedComment
  | misplacedVersion
  | unknownBehavior (word : String)
  | missing (what : Expected) (found : Token)
  | needed (what : Needed) (found : Token)
  | repeatedStorage
  | nestedArray
  | emptyStruct (name : String)
  | unclosedMembers
  | nestedStruct
  | blockStorage
  | returnStorage
  | returnArray
  | structInParameter
  | unclosedBlock
  | localPrecision
  | localStructAlone
  | methodCall
  | tooDeep
deriving DecidableEq, Repr

namespace SyntaxProblem

def message : SyntaxProblem → String
  | .hashInsideLine => "'#' は行頭でのみ使用できます"
  | .unknownCharacter c => "不明な文字です: '" ++ String.singleton c ++ "'"
  | .reservedWord word => "予約語 '" ++ word ++ "' は使用できません"
  | .doubleUnderscore word => "'__' を含む識別子は予約されています: '" ++ word ++ "'"
  | .hexWithoutDigits => "16進数リテラルに数字がありません"
  | .integerTooLarge text => "整数リテラルが大きすぎます: " ++ text
  | .exponentWithoutDigits => "指数部分に数字がありません"
  | .letterAfterFloat text => "浮動小数点リテラルの後に不正な文字があります: " ++ text
  | .malformedOctal text => "不正な8進数リテラルです: " ++ text
  | .letterAfterInteger => "整数リテラルの後に不正な文字があります"
  | .versionWithoutNumber => "#version にはバージョン番号が必要です"
  | .versionWithTail => "#version の後に余分なトークンがあります"
  | .malformedExtension => "#extension の書式は `#extension name : behavior` です"
  | .unknownDirective word => "サポートされていないプリプロセッサ指令です: #" ++ word
  | .unclosedComment => "ブロックコメントが閉じられていません"
  | .misplacedVersion => "#version はソースの先頭に記述する必要があります"
  | .unknownBehavior word => "不正な拡張機能の動作指定です: " ++ word
  | .missing what found => what.text ++ "（" ++ found.describe ++ " が見つかりました）"
  | .needed what found => what.text ++ "（" ++ found.describe ++ "）"
  | .repeatedStorage => "ストレージ修飾子が重複しています"
  | .nestedArray => "多次元配列はサポートされていません"
  | .emptyStruct name => "構造体 '" ++ name ++ "' にはメンバが必要です"
  | .unclosedMembers => "'\x7d' が必要です"
  | .nestedStruct => "構造体の入れ子定義はサポートされていません"
  | .blockStorage => "インターフェースブロックには uniform / buffer / in / out が必要です"
  | .returnStorage => "関数の戻り値に記憶域修飾子は指定できません"
  | .returnArray => "配列を返す関数はサポートされていません"
  | .structInParameter => "パラメータ内で構造体は定義できません"
  | .unclosedBlock => "ブロックが閉じられていません"
  | .localPrecision => "関数内の精度宣言はサポートされていません"
  | .localStructAlone => "構造体の局所定義には宣言子が必要です"
  | .methodCall => "メソッド呼び出しはサポートされていません"
  | .tooDeep => "入れ子が深すぎます"

end SyntaxProblem

/-- A cause and the place where it was found. -/
structure SyntaxError where
  problem : SyntaxProblem
  loc : Location
deriving DecidableEq, Repr

namespace SyntaxError

/-- The error as one line: its place and its wording. -/
def toText (e : SyntaxError) : String :=
  e.loc.toText ++ ": " ++ e.problem.message

end SyntaxError

end GlslEs
