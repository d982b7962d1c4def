import GlslEs.Builtin.Variable
import GlslEs.Diagnostic
import GlslEs.Shader
import GlslEs.Ty.Rule

/-!
# Problems of shaders

What checking can find wrong with a shader whose names are resolved.  Problems are grouped by
the kind of report they lead to; every group has one function for its wording.

`Problem.code`, `Problem.severity` and `Problem.message` make the report of a problem.
-/

namespace GlslEs

/-! ### Types -/

/-- Where a condition stands. -/
inductive ConditionPlace where
  | ifStatement
  | forLoop
  | whileLoop
  | doWhile
  | ternary
deriving DecidableEq, Repr

namespace ConditionPlace

def word : ConditionPlace → String
  | .ifStatement => "if"
  | .forLoop => "for"
  | .whileLoop => "while"
  | .doWhile => "do-while"
  | .ternary => "三項演算子"

end ConditionPlace

/-- Types that do not fit together. -/
inductive TypeProblem where
  | unary (op : UnaryOp) (operand : Ty)
  | binary (op : BinaryOp) (left right : Ty)
  | assign (target value : Ty)
  | joinedAssign (op : ArithOp) (target value : Ty)
  | branches (ifTrue ifFalse : Ty)
  | condition (place : ConditionPlace) (found : Ty)
  | notIndexable (base : Ty)
  | indexType (found : Ty)
  | selector (found : Ty)
  | startValue (name : String) (declared found : Ty)
  | resultType (declared found : Ty)
  | resultMissing (declared : Ty)
deriving DecidableEq, Repr

namespace TypeProblem

def message : TypeProblem → String
  | .unary op operand => "単項演算子 '" ++ op.text ++ "' は " ++ operand.name ++ " に適用できません"
  | .binary op left right =>
    "二項演算子 '" ++ op.text ++ "' は " ++ left.name ++ " と " ++ right.name ++ " に適用できません"
  | .assign target value => target.name ++ " に " ++ value.name ++ " は代入できません"
  | .joinedAssign op target value =>
    "'" ++ op.assignSign.text ++ "' は " ++ target.name ++ " と " ++ value.name ++ " に適用できません"
  | .branches ifTrue ifFalse =>
    "三項演算子の分岐の型が一致しません（" ++ ifTrue.name ++ " と " ++ ifFalse.name ++ "）"
  | .condition place found =>
    place.word ++ " の条件は bool である必要があります（" ++ found.name ++ "）"
  | .notIndexable base => base.name ++ " には添字を使用できません"
  | .indexType found => "添字は整数スカラーである必要があります（" ++ found.name ++ "）"
  | .selector found => "switch の選択式は整数スカラーである必要があります（" ++ found.name ++ "）"
  | .startValue name declared found =>
    "'" ++ name ++ "' は " ++ declared.name ++ " ですが、初期化子は " ++ found.name ++ " です"
  | .resultType declared found =>
    "戻り値の型は " ++ declared.name ++ " ですが、" ++ found.name ++ " が返されています"
  | .resultMissing declared => declared.name ++ " の値を返す必要があります"

end TypeProblem

/-! ### Versions and stages -/

/-- What a version of the language does not have. -/
inductive VersionProblem where
  | uintLiteral
  | operator (sign : Punct)
  | type (ty : Ty)
  | storage (storage : Storage)
  | interfaceStorage (storage : Storage)
  | layout
  | arrayValue
  | arrayConstructor
  | interfaceBlock
  | bufferBlock
  | switch
  | builtinFunction (name : String)
  | computeStage
deriving DecidableEq, Repr

namespace VersionProblem

def message (v : Version) : VersionProblem → String
  | .uintLiteral => "uint リテラル は " ++ v.name ++ " では使用できません"
  | .operator sign => "演算子 '" ++ sign.text ++ "' は " ++ v.name ++ " では使用できません"
  | .type ty => ty.baseName ++ " は " ++ v.name ++ " では使用できません"
  | .storage s => s.word ++ " は " ++ v.name ++ " では使用できません"
  | .interfaceStorage s =>
    v.name ++ " ではグローバルな " ++ s.word ++ " 変数を使用できません"
  | .layout => v.name ++ " では layout 修飾子を使用できません"
  | .arrayValue => v.name ++ " では配列を初期化できません"
  | .arrayConstructor => v.name ++ " では配列の構築子を使用できません"
  | .interfaceBlock => v.name ++ " ではインターフェースブロックを使用できません"
  | .bufferBlock => v.name ++ " ではバッファブロックを使用できません"
  | .switch => v.name ++ " では switch 文を使用できません"
  | .builtinFunction name => "組み込み関数 '" ++ name ++ "' は " ++ v.name ++ " では使用できません"
  | .computeStage => v.name ++ " では compute シェーダを使用できません"

end VersionProblem

/-- What a stage does not have. -/
inductive StageProblem where
  | discard (stage : Stage)
  | builtinFunction (name : String) (only : Stage)
  | builtinVariable (name : String) (only : Stage)
  | storage (storage : Storage) (stage : Stage)
  | computeInterface (storage : Storage)
  | shared
  | localSize
  | views
deriving DecidableEq, Repr

namespace StageProblem

def message : StageProblem → String
  | .discard stage => "discard は " ++ stage.name ++ " シェーダでは使用できません"
  | .builtinFunction name only =>
    "組み込み関数 '" ++ name ++ "' は " ++ only.name ++ " シェーダでのみ使用できます"
  | .builtinVariable name only => name ++ " は " ++ only.name ++ " シェーダでのみ使用できます"
  | .storage s stage => s.word ++ " は " ++ stage.name ++ " シェーダでは使用できません"
  | .computeInterface s => "compute シェーダでは " ++ s.word ++ " 変数を宣言できません"
  | .shared => "shared は compute シェーダでのみ使用できます"
  | .localSize => "local_size は compute シェーダでのみ指定できます"
  | .views => "num_views は vertex シェーダでのみ指定できます"

end StageProblem

/-! ### Constants and qualifiers -/

/-- Where a constant expression is missing. -/
inductive ConstantProblem where
  | arrayLength (name : String)
  | memberLength (name : String)
  | parameterLength
  | constValue (name : String)
  | globalValue (name : String)
  | withoutValue (name : String)
  | caseLabel
  | offset
deriving DecidableEq, Repr

namespace ConstantProblem

def message : ConstantProblem → String
  | .arrayLength name => "配列 '" ++ name ++ "' のサイズは正の整数定数式である必要があります"
  | .memberLength name => "メンバ '" ++ name ++ "' の配列サイズは正の整数定数式である必要があります"
  | .parameterLength => "パラメータの配列サイズは正の整数定数式である必要があります"
  | .constValue name => "const 変数 '" ++ name ++ "' の初期化子は定数式である必要があります"
  | .globalValue name => "グローバル変数 '" ++ name ++ "' の初期化子は定数式である必要があります"
  | .withoutValue name => "const 変数 '" ++ name ++ "' には初期化子が必要です"
  | .caseLabel => "case ラベルは定数式である必要があります"
  | .offset => "オフセット引数は定数式である必要があります"

end ConstantProblem

/-- An axis of a work group. -/
inductive Axis where
  | x
  | y
  | z
deriving DecidableEq, Repr, Inhabited

namespace Axis

/-- The layout entry that gives the size along an axis. -/
def entry : Axis → String
  | .x => "local_size_x"
  | .y => "local_size_y"
  | .z => "local_size_z"

def bound : Axis → Bound
  | .x => .maxComputeWorkGroupSizeX
  | .y => .maxComputeWorkGroupSizeY
  | .z => .maxComputeWorkGroupSizeZ

end Axis

/-- Qualifiers where they do not belong. -/
inductive QualifierProblem where
  | startValue (storage : Storage) (name : String)
  | samplerMember (name : String)
  | blockStorage (name : String)
  | samplerStorage
  | notGlobal (storage : Storage)
  | inoutVariable
  | bufferVariable
  | interfaceType (storage : Storage) (ty : Ty)
  | flatMissing (storage : Storage)
  | allExtensions (behavior : Behavior)
  | localSize (axis : Axis)
  | views
deriving DecidableEq, Repr

namespace QualifierProblem

def message : QualifierProblem → String
  | .startValue storage name => storage.word ++ " 変数 '" ++ name ++ "' は初期化できません"
  | .samplerMember name => "サンプラー型のメンバ '" ++ name ++ "' は宣言できません"
  | .blockStorage name =>
    "ブロック '" ++ name ++ "' には uniform または buffer 修飾子が必要です"
  | .samplerStorage => "サンプラーは uniform として宣言する必要があります"
  | .notGlobal storage => storage.word ++ " 修飾子はグローバルスコープでのみ使用できます"
  | .inoutVariable => "inout は変数宣言に使用できません"
  | .bufferVariable => "buffer 変数はブロック内で宣言する必要があります"
  | .interfaceType storage ty => storage.word ++ " 変数に " ++ ty.baseName ++ " 型は使用できません"
  | .flatMissing storage => "整数型の " ++ storage.word ++ " 変数には flat 修飾子が必要です"
  | .allExtensions behavior => "'all' には " ++ behavior.word ++ " を指定できません"
  | .localSize axis => axis.entry ++ " は1以上である必要があります"
  | .views => "num_views は1以上である必要があります"

end QualifierProblem

/-! ### Assignments and indices -/

/-- Why an expression cannot be assigned to. -/
inductive TargetProblem where
  | builtinVariable (name : String)
  | constVariable (name : String)
  | uniformVariable (name : String)
  | inputVariable (name : String)
  | varyingVariable (name : String)
  | repeatedComponents
  | notAVariable
deriving DecidableEq, Repr

namespace TargetProblem

def subject : TargetProblem → String
  | .builtinVariable name => "組み込み変数 '" ++ name ++ "' "
  | .constVariable name => "const 変数 '" ++ name ++ "' "
  | .uniformVariable name => "uniform 変数 '" ++ name ++ "' "
  | .inputVariable name => "入力変数 '" ++ name ++ "' "
  | .varyingVariable name => "varying 変数 '" ++ name ++ "' "
  | .repeatedComponents => "重複する成分を持つスウィズル"
  | .notAVariable => "左辺値でない式"

def message (p : TargetProblem) : String := p.subject ++ "には代入できません"

end TargetProblem

/-- What an index selects from. -/
inductive IndexKind where
  | sampler
  | uniform
  | vertexInput
  | varying
  | constantVector
  | other
deriving DecidableEq, Repr, Inhabited

namespace IndexKind

/-- The permission to select with an index that is no constant. -/
def permission : IndexKind → Permission
  | .sampler => .generalSamplerIndexing
  | .uniform => .generalUniformIndexing
  | .vertexInput => .generalAttributeMatrixVectorIndexing
  | .varying => .generalVaryingIndexing
  | .constantVector => .generalConstantMatrixVectorIndexing
  | .other => .generalVariableIndexing

def words : IndexKind → String
  | .sampler => "サンプラー配列"
  | .uniform => "uniform 変数"
  | .vertexInput => "頂点属性"
  | .varying => "ステージ間変数"
  | .constantVector => "const のベクトル・行列"
  | .other => "変数"

end IndexKind

/-! ### Loops -/

/-- Why a loop does not count with one variable by constant steps. -/
inductive InductionProblem where
  | startMissing
  | startIsNoDeclaration
  | severalCounters
  | counterType (name : String)
  | counterStart (name : String)
  | conditionMissing
  | condition (counter : String)
  | stepMissing
  | step (counter : String)
  | changedInBody (counter : String)
deriving DecidableEq, Repr

namespace InductionProblem

def message : InductionProblem → String
  | .startMissing => "初期化文がありません"
  | .startIsNoDeclaration => "初期化文がループカウンタの宣言ではありません"
  | .severalCounters => "ループカウンタは1つだけ宣言する必要があります"
  | .counterType name => "ループカウンタ '" ++ name ++ "' は int または uint である必要があります"
  | .counterStart name => "ループカウンタ '" ++ name ++ "' は定数で初期化する必要があります"
  | .conditionMissing => "条件式がありません"
  | .condition counter =>
    "条件式はループカウンタ '" ++ counter ++ "' と定数の比較である必要があります"
  | .stepMissing => "更新式がありません"
  | .step counter =>
    "更新式はループカウンタ '" ++ counter ++ "' の ++、-- または定数の +=、-= である必要があります"
  | .changedInBody counter =>
    "ループ本体でループカウンタ '" ++ counter ++ "' が変更されています"

end InductionProblem

/-- A loop of a form that the target does not have. -/
inductive LoopProblem where
  | forLoop (reason : InductionProblem)
  | whileLoop
  | doWhile
deriving DecidableEq, Repr

namespace LoopProblem

def code : LoopProblem → Code
  | .forLoop _ => .nonInductiveForLoopNotSupported
  | .whileLoop => .whileLoopNotSupported
  | .doWhile => .doWhileLoopNotSupported

def message : LoopProblem → String
  | .forLoop reason => "非帰納的な for ループはサポートされていません: " ++ reason.message
  | .whileLoop => "while ループはサポートされていません"
  | .doWhile => "do-while ループはサポートされていません"

end LoopProblem

/-! ### Amounts -/

/-- Something counted against a bound. -/
inductive Amount where
  | expressionDepth (n : Nat)
  | parameters (function : String) (n : Nat)
  | callDepth (n : Nat)
  | offset (n : Int)
  | localSize (axis : Axis) (n : Nat)
  | views (n : Nat)
  | samplers (n : Nat)
  | uniforms (n : Nat)
  | uniformLocations (n : Nat)
  | uniformBlocks (n : Nat)
  | blockSize (block : String) (n : Nat)
  | vertexInputs (n : Nat)
  | varyings (n : Nat)
  | vertexOutputs (n : Nat)
  | fragmentInputs (n : Nat)
  | fragmentOutputs (name : String) (n : Nat)
deriving DecidableEq, Repr

namespace Amount

def words : Amount → String
  | .expressionDepth n => "式の深さ " ++ toString n
  | .parameters function n => "関数 '" ++ function ++ "' のパラメータ数 " ++ toString n
  | .callDepth n => "呼び出しの深さ " ++ toString n
  | .offset n => "オフセット " ++ toString n
  | .localSize axis n => axis.entry ++ " = " ++ toString n
  | .views n => "num_views = " ++ toString n
  | .samplers n => "サンプラー数 " ++ toString n
  | .uniforms n => "uniform の容量 " ++ toString n
  | .uniformLocations n => "uniform の位置数 " ++ toString n
  | .uniformBlocks n => "uniform ブロック数 " ++ toString n
  | .blockSize block n => "uniform ブロック '" ++ block ++ "' のサイズ " ++ toString n
  | .vertexInputs n => "頂点属性の数 " ++ toString n
  | .varyings n => "varying の容量 " ++ toString n
  | .vertexOutputs n => "頂点出力の容量 " ++ toString n
  | .fragmentInputs n => "フラグメント入力の容量 " ++ toString n
  | .fragmentOutputs name n =>
    "出力 '" ++ name ++ "' の位置 " ++ toString (n - 1) ++ " までの数 " ++ toString n

end Amount

/-! ### All problems -/

/-- What is wrong with a shader. -/
inductive Problem where
  | type (p : TypeProblem)
  | version (p : VersionProblem) (v : Version)
  | stage (p : StageProblem)
  | constant (p : ConstantProblem)
  | qualifier (p : QualifierProblem)
  | target (p : TargetProblem)
  | constructor (p : ConstructorProblem)
  | loop (p : LoopProblem)
  | noOverload (isBuiltin : Bool) (name : String) (args : List Ty)
  | componentRange (base : Ty)
  | components (base : Ty) (word : String)
  | member (base : Ty) (name : String)
  | indexRange (position : Int) (base : Ty) (size : Nat)
  | indexNotConstant (kind : IndexKind)
  | exceeds (amount : Amount) (bound : Bound) (value : Int)
  | extensionUnknown (name : String) (isRequired : Bool)
  | extensionAbsent (e : Extension)
  | extensionNotEnabled (e : Extension)
  | extensionUsed (e : Extension)
  | recursion (name : String)
  | missingMain
  | precisionMissing
  | precisionHigh
deriving DecidableEq, Repr

namespace Problem

def code : Problem → Code
  | .type _ => .typeMismatch
  | .version .. => .unsupportedInVersion
  | .stage _ => .unsupportedInStage
  | .constant _ => .constantExpressionRequired
  | .qualifier _ => .invalidQualifier
  | .target _ => .notAnLValue
  | .constructor _ => .invalidConstructor
  | .loop p => p.code
  | .noOverload .. => .noMatchingOverload
  | .componentRange _ | .components .. => .invalidSwizzle
  | .member .. => .undeclaredIdentifier
  | .indexRange .. => .indexOutOfRange
  | .indexNotConstant _ => .nonConstantIndexNotSupported
  | .exceeds .. => .limitExceeded
  | .extensionUnknown .. => .extensionNotSupported
  | .extensionAbsent _ | .extensionNotEnabled _ => .extensionRequired
  | .extensionUsed _ => .extensionUsed
  | .recursion _ => .recursionNotAllowed
  | .missingMain => .missingMain
  | .precisionMissing => .noPrecisionSpecified
  | .precisionHigh => .unsupportedPrecision

/-- How bad a problem is: only extensions give warnings. -/
def severity : Problem → Severity
  | .extensionUnknown _ isRequired => if isRequired then .error else .warning
  | .extensionUsed _ => .warning
  | _ => .error

def message : Problem → String
  | .type p => p.message
  | .version p v => p.message v
  | .stage p => p.message
  | .constant p => p.message
  | .qualifier p => p.message
  | .target p => p.message
  | .constructor p => p.message
  | .loop p => p.message
  | .noOverload isBuiltin name args =>
    (if isBuiltin then "組み込み関数 '" else "関数 '") ++ name ++ "' に引数 (" ++
      ", ".intercalate (args.map Ty.name) ++ ") の多重定義がありません"
  | .componentRange base => base.name ++ " の範囲外の成分を参照しています"
  | .components base word => base.name ++ " に対する不正なスウィズル '" ++ word ++ "' です"
  | .member base name => base.name ++ " にメンバ '" ++ name ++ "' はありません"
  | .indexRange position base size =>
    "添字 " ++ toString position ++ " は " ++ base.name ++ " の範囲 [0, " ++ toString size ++
      ") の外です"
  | .indexNotConstant kind =>
    kind.words ++ "への非定数インデックスはサポートされていません（" ++ kind.permission.name ++ " = 0）"
  | .exceeds amount bound value =>
    amount.words ++ " が制限 " ++ bound.name ++ " (" ++ toString value ++ ") を超えています"
  | .extensionUnknown name _ => "拡張機能 " ++ name ++ " はサポートされていません"
  | .extensionAbsent e =>
    e.name ++ " が必要ですが、このプラットフォームではサポートされていません"
  | .extensionNotEnabled e => "#extension " ++ e.name ++ " : enable が必要です"
  | .extensionUsed e => "拡張機能 " ++ e.name ++ " を使用しています"
  | .recursion name => "関数 '" ++ name ++ "' は再帰的に呼び出されています"
  | .missingMain => "'void main()' が定義されていません"
  | .precisionMissing => "float の既定精度が宣言されていません"
  | .precisionHigh => "このプラットフォームのフラグメントシェーダでは highp を使用できません"

end Problem

/-- A problem and its place. -/
structure Finding where
  problem : Problem
  loc : Location
deriving DecidableEq, Repr

namespace Finding

def report (f : Finding) : Diagnostic :=
  ⟨f.problem.severity, f.problem.code, f.problem.message, f.loc⟩

end Finding

end GlslEs
