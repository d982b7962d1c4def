import GlslEs.Builtin.Function
import GlslEs.Check.Context
import GlslEs.Resolve.Expr

/-!
# Checking expressions

An expression is reported where no rule gives it a type although its operands have types, so
one mistake leads to one report.  Besides types the checks are about what the version, the stage
and the extensions allow, about what may be assigned to, and about indices.

* `Context.targetProblem?`: why an expression cannot be assigned to.
* `Expr.isConstantIndex`: whether an index counts as a constant.
* `Context.checkExpr`: everything found in an expression, operands first.
-/

namespace GlslEs

/-! ### Indices -/

def IndexKind.of (stage : Stage) (base : Expr) : IndexKind :=
  let q := base.qualifiers
  if base.ty.isSampler && base.ty.isArray then .sampler
  else if q.uniform then .uniform
  else if q.vertexAttribute || (q.input && stage = .vertex) then .vertexInput
  else if q.varying || q.input || q.output then .varying
  else if q.constant && !base.ty.isArray then .constantVector
  else .other

namespace Expr

mutual

/-- Whether an expression is made of constants and loop counters alone. -/
def isConstantIndex (counters : List String) : Expr → Bool
  | .lit .. => true
  | .var note name => note.qualifiers.constant || counters.contains name
  | .unary note op operand =>
    note.qualifiers.constant || (!op.isIncrement && isConstantIndex counters operand)
  | .binary note _ left right =>
    note.qualifiers.constant || (isConstantIndex counters left && isConstantIndex counters right)
  | .ternary note condition ifTrue ifFalse =>
    note.qualifiers.constant || (isConstantIndex counters condition &&
      isConstantIndex counters ifTrue && isConstantIndex counters ifFalse)
  | .call note (.user _) _ => note.qualifiers.constant
  | .call note _ args => note.qualifiers.constant || areConstantIndices counters args
  | .swizzle note base _ _ => note.qualifiers.constant || isConstantIndex counters base
  | .field note base _ => note.qualifiers.constant || isConstantIndex counters base
  | .index note base position =>
    note.qualifiers.constant || (isConstantIndex counters base && isConstantIndex counters position)
  | .assign note _ _ _ => note.qualifiers.constant
  | .seq note _ => note.qualifiers.constant

/-- Whether several expressions are made of constants and loop counters alone. -/
def areConstantIndices (counters : List String) : List Expr → Bool
  | [] => true
  | e :: es => isConstantIndex counters e && areConstantIndices counters es

end

end Expr

namespace Context

def checkIndex (c : Context) (base position : Expr) (loc : Location) : List Finding :=
  if base.ty.isError || position.ty.isError then []
  else
    match base.ty.indexBound? with
    | none => [⟨.type (.notIndexable base.ty), loc⟩]
    | some size =>
      if !(position.ty.isInteger && position.ty.isScalar) then
        [⟨.type (.indexType position.ty), position.loc⟩]
      else
        match c.evalInt? position with
        | some n => findIf (n < 0 || size ≤ n) (.indexRange n base.ty size) position.loc
        | none =>
          let kind := IndexKind.of c.stage base
          findIf (!position.isConstantIndex c.counters && !c.limits.permits kind.permission)
            (.indexNotConstant kind) position.loc

/-! ### Targets of assignments -/

def variableProblem? (c : Context) (q : QualifierSet) (name : String) : Option TargetProblem :=
  match c.builtin? name with
  | some x => if x.writable then none else some (.builtinVariable name)
  | none =>
    if q.constant then some (.constVariable name)
    else if q.uniform then some (.uniformVariable name)
    else if q.input then some (.inputVariable name)
    else if q.varying && c.stage = .fragment then some (.varyingVariable name)
    else none

def targetProblem? (c : Context) : Expr → Option TargetProblem
  | .var note name => c.variableProblem? note.qualifiers name
  | .swizzle _ base _ components =>
    if components.Nodup then targetProblem? c base else some .repeatedComponents
  | .field _ base _ => targetProblem? c base
  | .index _ base _ => targetProblem? c base
  | _ => some .notAVariable

def checkTarget (c : Context) (e : Expr) : List Finding :=
  if e.ty.isError then []
  else
    match c.targetProblem? e with
    | some p => [⟨.target p, e.loc⟩]
    | none => []

/-! ### Calls -/

def checkConstructor (c : Context) (ty : Ty) (args : List Expr) (loc : Location) : List Finding :=
  c.checkType ty loc ++
    if ty.isArray && !c.version.isEs3 then [c.unsupported .arrayConstructor loc]
    else
      let members := match ty.base with
        | .struct name => c.structs.members name
        | _ => []
      match ty.constructorProblem? (args.map Expr.ty) members with
      | some p => [⟨.constructor p, loc⟩]
      | none => []

def checkOffsetComponent (c : Context) (kind : OffsetKind) (n : Int) (loc : Location) :
    List Finding :=
  let (least, greatest) := match kind with
    | .texel => (Bound.minProgramTexelOffset, Bound.maxProgramTexelOffset)
    | .gather => (.minProgramTextureGatherOffset, .maxProgramTextureGatherOffset)
  let exceeds (b : Bound) : Finding := ⟨.exceeds (.offset n) b (c.limits.bound b), loc⟩
  if n < c.limits.bound least then [exceeds least]
  else if c.limits.bound greatest < n then [exceeds greatest]
  else []

def checkOffset (c : Context) (kind : OffsetKind) (offset : Expr) : List Finding :=
  match c.eval? offset with
  | none => [⟨.constant .offset, offset.loc⟩]
  | some values => values.flatMap fun
    | .int n => c.checkOffsetComponent kind n.toInt offset.loc
    | _ => []

def checkBuiltinUse (c : Context) (f : BuiltinFunction) (args : List Expr) (loc : Location) :
    List Finding :=
  (match f.stage? with
    | some stage => findIf (stage != c.stage) (.stage (.builtinFunction f.name stage)) loc
    | none => []) ++
  (match f.extension? with
    | some e => c.needsExtension e loc
    | none => []) ++
  ((f.parameters.zip args).flatMap fun (p, arg) => if p.isOutput then c.checkTarget arg else []) ++
  match f.offset? with
  | some (position, kind) => (args[position]?.map (c.checkOffset kind)).getD []
  | none => []

/-- A call of a built-in function: of the functions that the version has, the first one that is
there in the stage, else the first one. -/
def checkBuiltinCall (c : Context) (name : String) (args : List Expr) (loc : Location) :
    List Finding :=
  let candidates := Builtin.matching name (args.map Expr.ty)
  let available := candidates.filter (·.availableIn c.version)
  if candidates.isEmpty then [⟨.noOverload true name (args.map Expr.ty), loc⟩]
  else
    match (available.find? fun f => f.stage?.all (· = c.stage)).or available.head? with
    | some f => c.checkBuiltinUse f args loc
    | none => [c.unsupported (.builtinFunction name) loc]

/-- A call of a user's function; a name that is not declared is reported elsewhere. -/
def checkUserCall (c : Context) (name : String) (args : List Expr) (loc : Location) :
    List Finding :=
  let overloads := c.functions.filter (·.name == name)
  match overloads.find? (·.parameterTypes == args.map Expr.ty) with
  | some p =>
    (p.parameters.zip args).flatMap fun (parameter, arg) =>
      if parameter.direction.writes then c.checkTarget arg else []
  | none => findIf (!overloads.isEmpty) (.noOverload false name (args.map Expr.ty)) loc

def checkCall (c : Context) (callee : Callee) (args : List Expr) (loc : Location) : List Finding :=
  if args.any (·.ty.isError) then []
  else
    match callee with
    | .constructor ty => c.checkConstructor ty args loc
    | .builtin name => c.checkBuiltinCall name args loc
    | .user name => c.checkUserCall name args loc

/-! ### Expressions -/

def checkBuiltinVariable (c : Context) (name : String) (loc : Location) : List Finding :=
  match c.builtin? name with
  | none => []
  | some x =>
    (match x.stage? with
      | some stage => findIf (stage != c.stage) (.stage (.builtinVariable name stage)) loc
      | none => []) ++
    match x.extension? with
    | some e => c.needsExtension e loc
    | none => []

/-- The use of an operator that the first version of the language lacks. -/
def checkOperator (c : Context) (op : BinaryOp) (loc : Location) : List Finding :=
  if op.isBitwise || op = .arith .mod then c.needsEs3 (.operator op.sign) loc else []

def checkCondition (place : ConditionPlace) (e : Expr) : List Finding :=
  findIf (!e.ty.isError && e.ty != .bool) (.type (.condition place e.ty)) e.loc

def checkAssign (c : Context) (op : AssignOp) (target value : Expr) (loc : Location) :
    List Finding :=
  c.checkTarget target ++
    if target.ty.isError || value.ty.isError then []
    else
      match op with
      | .plain => findIf (target.ty != value.ty) (.type (.assign target.ty value.ty)) loc
      | .joined op =>
        c.checkOperator (.arith op) loc ++
          findIf (!BinaryOp.joins (.arith op) target.ty value.ty)
            (.type (.joinedAssign op target.ty value.ty)) loc

mutual

/-- Everything found in an expression, operands first. -/
def checkExpr (c : Context) : Expr → List Finding
  | .lit note value =>
    match value with
    | .uint _ => c.needsEs3 .uintLiteral note.loc
    | _ => []
  | .var note name =>
    if "gl_".toList.isPrefixOf name.toList then c.checkBuiltinVariable name note.loc else []
  | .unary note op operand =>
    checkExpr c operand ++
      (if op = .bitNot then c.needsEs3 (.operator op.sign) note.loc else []) ++
      (if op.isIncrement then c.checkTarget operand else []) ++
      findIf (note.ty.isError && !operand.ty.isError) (.type (.unary op operand.ty)) note.loc
  | .binary note op left right =>
    checkExpr c left ++ checkExpr c right ++ c.checkOperator op note.loc ++
      findIf (note.ty.isError && !left.ty.isError && !right.ty.isError)
        (.type (.binary op left.ty right.ty)) note.loc
  | .assign note op target value =>
    checkExpr c target ++ checkExpr c value ++ c.checkAssign op target value note.loc
  | .ternary note condition ifTrue ifFalse =>
    checkExpr c condition ++ checkExpr c ifTrue ++ checkExpr c ifFalse ++
      checkCondition .ternary condition ++
      findIf (note.ty.isError && !ifTrue.ty.isError && !ifFalse.ty.isError)
        (.type (.branches ifTrue.ty ifFalse.ty)) note.loc
  | .call note callee args => checkExprs c args ++ c.checkCall callee args note.loc
  | .swizzle note base _ _ =>
    checkExpr c base ++
      findIf (note.ty.isError && !base.ty.isError) (.componentRange base.ty) note.loc
  | .field note base name =>
    checkExpr c base ++
      findIf (note.ty.isError && !base.ty.isError)
        (if base.ty.isStruct then .member base.ty name else .components base.ty name) note.loc
  | .index note base position =>
    checkExpr c base ++ checkExpr c position ++ c.checkIndex base position note.loc
  | .seq _ exprs => checkExprs c exprs

def checkExprs (c : Context) : List Expr → List Finding
  | [] => []
  | e :: es => checkExpr c e ++ checkExprs c es

end

/-- Everything found in an expression that is no part of another one. -/
def checkWhole (c : Context) (e : Expr) : List Finding :=
  c.checkExpr e ++ c.exceeding .maxExpressionComplexity e.depth (.expressionDepth e.depth) e.loc

end Context

end GlslEs
