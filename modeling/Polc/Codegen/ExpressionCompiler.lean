import Polc.Codegen.CompilerUtils

/-!
# Compilation of expressions

The part of `libpolynomial/codegen/ExpressionCompiler.cpp` for expressions over local variables of
value types, with the types that `libpolynomial/analysis/TypeChecker.cpp` gives to them.
-/

namespace Polynomial

/-- An expression. A local variable is named by its base stack offset. -/
inductive Expression where
  | identifier (declaration : ℕ)
  | boolLiteral (value : Bool)
  | numberLiteral (value : ℚ) (compatibleBytesType : Option FixedBytesType)
  | addressLiteral (value : BitVec 160)
  | stringLiteral (value : List (BitVec 8))
  | typeConversion (type : ValueType) (argument : Expression)
  | unaryOperation (op : UnaryOperator) (subExpression : Expression)
  /-- `++` or `--`, before or after a variable. -/
  | countOperation (isIncrement isPrefixOperation : Bool) (declaration : ℕ)
  | binaryOperation (op : BinaryOperator) (left right : Expression)
  | assignment (declaration : ℕ) (right : Expression)
  | compoundAssignment (op : BinaryOperator) (declaration : ℕ) (right : Expression)
  deriving DecidableEq

/-- The types of the local variables by their base stack offsets. The second slot of a variable
with two slots is not that of another variable. -/
structure LocalVariables where
  type : ℕ → Option ValueType
  isValueType : ∀ o t, type o = some t → t.isValueType = true
  apart : ∀ o t, type o = some t → t.sizeOnStack = 2 → type (o + 1) = none

namespace Expression

variable (Γ : LocalVariables)

/-- The type of an explicit conversion: conversions to addresses keep whether they are payable. -/
def typeConversionResult (argument type : ValueType) : Option ValueType :=
  if argument.isExplicitlyConvertibleTo type then
    match type with
    | .address _ => some (.address (argument.isExplicitlyConvertibleTo (.address true)))
    | t => some t
  else none

/-- The type of the expression, if it passes the type checker. -/
def typeOf : Expression → Option ValueType
  | identifier o => Γ.type o
  | boolLiteral _ => some .bool
  | numberLiteral q c => some (.rationalNumber q c)
  | addressLiteral _ => some (.address true)
  | stringLiteral s => some (.stringLiteral s)
  | typeConversion t e => if t.isValueType then (typeOf e).bind (typeConversionResult · t) else none
  | unaryOperation op e => (typeOf e).bind (·.unaryOperatorResult op)
  | countOperation _ _ o => (Γ.type o).filter (· matches .integer _)
  | binaryOperation op l r => do
    let common ← (← typeOf l).binaryOperatorResult op (← typeOf r)
    return if op.isCompareOp then .bool else common
  | assignment o r => do
    let t ← Γ.type o
    if (← typeOf r).isImplicitlyConvertibleTo t then some t else none
  | compoundAssignment op o r => do
    let t ← Γ.type o
    if op.hasAssignmentOp ∧ t.binaryOperatorResult op (← typeOf r) = some t then some t else none

/-- Literals, and everything of the type of a constant. -/
def isLiteral (e : Expression) : Bool :=
  match e with
  | boolLiteral _ | numberLiteral _ _ | addressLiteral _ | stringLiteral _ => true
  | e => (typeOf Γ e).any (· matches .rationalNumber _ _)

end Expression

namespace ExpressionCompiler

open CompilerUtils

structure Setting where
  /-- The machine has shift instructions. -/
  hasBitwiseShifting : Bool
  optimiseOrderLiterals : Bool
  deriving DecidableEq, Repr

/-- `DUP` with the given number, if there is one. -/
def dupInstruction (n : ℕ) : Option Item :=
  if h : n - 1 < 16 then if 0 < n then some (.operation (.dup ⟨n - 1, h⟩)) else none else none

/-- `SWAP` with the given number, if there is one. -/
def swapInstruction (n : ℕ) : Option Item :=
  if h : n - 1 < 16 then if 0 < n then some (.operation (.swap ⟨n - 1, h⟩)) else none else none

/-- `StackVariable::retrieveValue`: copy a variable to the top of a stack of the given height. -/
def retrieveValue (declaration size height : ℕ) : Option Code :=
  let stackPos := height - declaration - 1
  (dupInstruction (stackPos + 1)).map (List.replicate size)

/-- `StackVariable::storeValue`, which removes the value only if it is moved. -/
def storeValue (declaration size height : ℕ) (move : Bool) : Option Code := do
  let stackDiff := height - declaration - 1 - size + 1
  let swap ← swapInstruction stackDiff
  let code := (List.replicate size [swap, .operation .pop]).flatten
  if move then some code else (retrieveValue declaration size (height - size)).map (code ++ ·)

def cleanupNeededForOp (type : ValueType) (op : BinaryOperator) : Bool :=
  op.isCompareOp || op.isShiftOp ||
    (type matches .integer _) && (op = .div || op = .mod || op = .exp)

/-- The upper parts of internal functions are not compared, as they may be unknown. -/
def maskFunctionsCode : ValueType → Code
  | .function t =>
    if t.isExternal then []
    else [.push (mask 32), .operation .and, .operation (.swap 0), .push (mask 32), .operation .and]
  | _ => []

def appendCompareOperatorCode (op : BinaryOperator) (type : ValueType) : Option Code :=
  match op with
  | .equal => some (maskFunctionsCode type ++ operations [.eq])
  | .notEqual => some (maskFunctionsCode type ++ operations [.eq, .iszero])
  | .greaterThanOrEqual => some (operations [if type.isSigned then .slt else .lt, .iszero])
  | .lessThanOrEqual => some (operations [if type.isSigned then .sgt else .gt, .iszero])
  | .greaterThan => some (operations [if type.isSigned then .sgt else .gt])
  | .lessThan => some (operations [if type.isSigned then .slt else .lt])
  | _ => none

def appendArithmeticOperatorCode (op : BinaryOperator) (type : IntegerType) : Option Code :=
  let testForZero : Code := [.operation (.dup 1), .operation .iszero, .conditionalInvalid]
  match op with
  | .add => some (operations [.add])
  | .sub => some (operations [.sub])
  | .mul => some (operations [.mul])
  | .div => some (testForZero ++ operations [if type.isSigned then .sdiv else .div])
  | .mod => some (testForZero ++ operations [if type.isSigned then .smod else .mod])
  | .exp => some (operations [.exp])
  | _ => none

def appendBitOperatorCode (op : BinaryOperator) : Option Code :=
  match op with
  | .bitOr => some (operations [.or])
  | .bitAnd => some (operations [.and])
  | .bitXor => some (operations [.xor])
  | _ => none

def appendOrdinaryBinaryOperatorCode (op : BinaryOperator) (type : ValueType) : Option Code :=
  if op.isArithmeticOp then
    match type with
    | .integer t => appendArithmeticOperatorCode op t
    | _ => none
  else appendBitOperatorCode op

/-- The code of the assembly for a right shift of a signed number by division: the bits of a
negative number are flipped before and after. -/
def signedShiftCode : Code :=
  -- let xor_mask := sub(0, slt(value_to_shift, 0))
  [.push 0, .operation (.dup 2), .operation .slt, .push 0, .operation .sub,
  -- value_to_shift := xor(div(xor(value_to_shift, xor_mask), exp(2, shift_amount)), xor_mask)
    .operation (.dup 0), .operation (.dup 2), .push 2, .operation .exp,
    .operation (.dup 2), .operation (.dup 5), .operation .xor, .operation .div, .operation .xor,
    .operation (.swap 2), .operation .pop,
  -- the end of the block
    .operation .pop]

/-- The code of the assembly for a right shift of an unsigned number by division:
`value_to_shift := div(value_to_shift, exp(2, shift_amount))`. -/
def unsignedShiftCode : Code :=
  [.operation (.dup 0), .push 2, .operation .exp, .operation (.dup 2), .operation .div,
    .operation (.swap 1), .operation .pop]

/-- Stop for a negative shift amount. -/
def testForNegativeCode (amountSigned : Bool) : Code :=
  if amountSigned then [.push 0, .operation (.dup 2), .operation .slt, .conditionalInvalid] else []

/-- The shift of the value below the amount. -/
def shiftCode (hasBitwiseShifting : Bool) (op : BinaryOperator) (valueSigned : Bool) :
    Option Code :=
  match op with
  | .shl =>
    some (if hasBitwiseShifting then operations [.shl]
      else [.push 2, .operation .exp, .operation .mul])
  | .sar =>
    some (if valueSigned then
        if hasBitwiseShifting then operations [.sar] else signedShiftCode ++ operations [.pop]
      else if hasBitwiseShifting then operations [.shr]
      else unsignedShiftCode ++ operations [.pop])
  | _ => none

def appendShiftOperatorCode (hasBitwiseShifting : Bool) (op : BinaryOperator)
    (valueType shiftAmountType : ValueType) : Option Code :=
  match valueType, shiftAmountType with
  | .integer t, .integer amount =>
    (shiftCode hasBitwiseShifting op t.isSigned).map fun shift =>
      testForNegativeCode amount.isSigned ++ .operation (.swap 0) :: shift
  | .fixedBytes _, .integer amount =>
    (shiftCode hasBitwiseShifting op false).map fun shift =>
      testForNegativeCode amount.isSigned ++ .operation (.swap 0) :: shift
  | _, _ => none

/-- The operator itself, on operands of these types. -/
def appendOperatorCode (hasBitwiseShifting : Bool) (op : BinaryOperator)
    (commonType rightTargetType : ValueType) : Option Code :=
  if op.isShiftOp then appendShiftOperatorCode hasBitwiseShifting op commonType rightTargetType
  else if op.isCompareOp then appendCompareOperatorCode op commonType
  else appendOrdinaryBinaryOperatorCode op commonType

/-- The type that the right operand is converted to. -/
def rightTargetType (op : BinaryOperator) (commonType rightType : ValueType) : Option ValueType :=
  if op.isShiftOp then rightType.mobileType else some commonType

def unaryOperatorCode : UnaryOperator → Code
  | .not => operations [.iszero]
  | .bitNot => operations [.not]
  | .add => []
  | .sub => [.push 0, .operation .sub]

/-- Two operands, each converted as soon as it is on the stack. -/
def operandsCode (first : Option Code) (convertFirst : Code) (second : Option Code)
    (convertSecond : Code) : Option Code := do
  return (← first) ++ convertFirst ++ (← second) ++ convertSecond

variable (setting : Setting) (Γ : LocalVariables)

/-- The code of an expression on a stack of the given height. -/
def visit : Expression → ℕ → Option Code
  | .identifier o, height => (Γ.type o).bind fun t => retrieveValue o t.sizeOnStack height
  | .boolLiteral b, _ => some [.push (.ofBool b)]
  | .numberLiteral q _, _ => (RationalNumberType.literalValue q).map ([.push ·])
  | .addressLiteral a, _ => some [.push (a.setWidth 256)]
  | .stringLiteral _, _ => some []
  | .typeConversion t e, height => do
    let type ← Expression.typeOf Γ e
    let resultType ← Expression.typeOf Γ (.typeConversion t e)
    return (← visit e height) ++ (← convertType setting.hasBitwiseShifting type resultType false)
  | .unaryOperation op e, height =>
    match Expression.typeOf Γ (.unaryOperation op e) with
    | some (.rationalNumber q _) => (RationalNumberType.literalValue q).map ([.push ·])
    | some _ => (visit e height).map (· ++ unaryOperatorCode op)
    | none => none
  | .countOperation isIncrement isPrefixOperation o, height => do
    let value ← retrieveValue o 1 height
    let copy : Code := if isPrefixOperation then [] else operations [.dup 0]
    let change : Code := .push 1 :: operations (if isIncrement then [.add] else [.swap 0, .sub])
    let store ← storeValue o 1 (height + 1 + copy.length) (!isPrefixOperation)
    return value ++ copy ++ change ++ store
  | .binaryOperation op l r, height => do
    let leftType ← Expression.typeOf Γ l
    let rightType ← Expression.typeOf Γ r
    let commonType ← leftType.binaryOperatorResult op rightType
    match commonType with
    | .rationalNumber q _ => (RationalNumberType.literalValue q).map ([.push ·])
    | _ =>
      let cleanupNeeded := cleanupNeededForOp commonType op
      let rightTarget ← rightTargetType op commonType rightType
      let convertLeft ←
        convertType setting.hasBitwiseShifting leftType commonType cleanupNeeded
      let convertRight ←
        convertType setting.hasBitwiseShifting rightType rightTarget cleanupNeeded
      -- a literal operand of a commutative operator is pushed last
      let swap := setting.optimiseOrderLiterals && op.isCommutativeOp &&
        r.isLiteral Γ && !l.isLiteral Γ
      let operands ← bif swap then
          operandsCode (visit l height) convertLeft (visit r (height + 1)) convertRight
        else operandsCode (visit r height) convertRight (visit l (height + 1)) convertLeft
      return operands ++
        (← appendOperatorCode setting.hasBitwiseShifting op commonType rightTarget)
  | .assignment o r, height => do
    let leftType ← Γ.type o
    let rightType ← Expression.typeOf Γ r
    let size := leftType.sizeOnStack
    return (← visit r height) ++
      (← convertType setting.hasBitwiseShifting rightType leftType false) ++
      (← storeValue o size (height + size) false)
  | .compoundAssignment op o r, height => do
    let leftType ← Γ.type o
    let rightType ← Expression.typeOf Γ r
    let cleanupNeeded := cleanupNeededForOp leftType op
    let rightIntermediateType ← rightTargetType op leftType rightType
    return (← visit r height) ++
      (← convertType setting.hasBitwiseShifting rightType rightIntermediateType cleanupNeeded) ++
      (← retrieveValue o 1 (height + 1)) ++
      (← convertType setting.hasBitwiseShifting leftType leftType cleanupNeeded) ++
      (← appendOperatorCode setting.hasBitwiseShifting op leftType rightIntermediateType) ++
      (← storeValue o 1 (height + 1) false)

end ExpressionCompiler

end Polynomial
