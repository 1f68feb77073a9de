import OmegaRed.Lib.OperatorStack
import OmegaRed.CDVD.IsoFile
import Mathlib

/-! The operators of the debugger's expressions and the reading of one number or operator. -/

namespace OmegaRed.DebugTools

inductive ExpressionOpcodeType
  | bracketL | bracketR | memL | memR | memSize | signPlus | signMinus
  | bitNot | logNot | mul | div | mod | add | sub
  | shl | shr | greaterEqual | greater | lowerEqual | lower
  | equal | notEqual | bitAnd | xor | bitOr | logAnd
  | logOr | tertIf | tertElse | number | mem | none
  deriving DecidableEq

inductive ExpressionCommand
  | const | constFloat | ref | op
  deriving DecidableEq

structure ExpressionOpcode where
  name : List Char
  priority : Nat
  len : Nat
  args : Nat
  sign : Bool

namespace ExpressionOpcodeType

/-- `ExpressionOpcodes` -/
def info : ExpressionOpcodeType → ExpressionOpcode
  | bracketL => ⟨['('], 25, 1, 0, false⟩
  | bracketR => ⟨[')'], 25, 1, 0, false⟩
  | memL => ⟨['['], 4, 1, 0, false⟩
  | memR => ⟨[']'], 4, 1, 0, false⟩
  | memSize => ⟨[','], 5, 1, 2, false⟩
  | signPlus => ⟨['+'], 22, 1, 1, true⟩
  | signMinus => ⟨['-'], 22, 1, 1, true⟩
  | bitNot => ⟨['~'], 22, 1, 1, false⟩
  | logNot => ⟨['!'], 22, 1, 1, false⟩
  | mul => ⟨['*'], 21, 1, 2, false⟩
  | div => ⟨['/'], 21, 1, 2, false⟩
  | mod => ⟨['%'], 21, 1, 2, false⟩
  | add => ⟨['+'], 20, 1, 2, false⟩
  | sub => ⟨['-'], 20, 1, 2, false⟩
  | shl => ⟨['<', '<'], 19, 2, 2, false⟩
  | shr => ⟨['>', '>'], 19, 2, 2, false⟩
  | greaterEqual => ⟨['>', '='], 18, 2, 2, false⟩
  | greater => ⟨['>'], 18, 1, 2, false⟩
  | lowerEqual => ⟨['<', '='], 18, 2, 2, false⟩
  | lower => ⟨['<'], 18, 1, 2, false⟩
  | equal => ⟨['=', '='], 17, 2, 2, false⟩
  | notEqual => ⟨['!', '='], 17, 2, 2, false⟩
  | bitAnd => ⟨['&'], 16, 1, 2, false⟩
  | xor => ⟨['^'], 15, 1, 2, false⟩
  | bitOr => ⟨['|'], 14, 1, 2, false⟩
  | logAnd => ⟨['&', '&'], 13, 2, 2, false⟩
  | logOr => ⟨['|', '|'], 12, 2, 2, false⟩
  | tertIf => ⟨['?'], 10, 1, 0, false⟩
  | tertElse => ⟨[':'], 11, 1, 3, false⟩
  | number => ⟨[], 0, 0, 0, false⟩
  | mem => ⟨['[', ']'], 0, 0, 1, false⟩
  | none => ⟨[], 0, 0, 0, false⟩

/-- The operators in the order of their codes; the first 29 can be written. -/
def all : List ExpressionOpcodeType :=
  [bracketL, bracketR, memL, memR, memSize, signPlus, signMinus, bitNot, logNot, mul, div, mod,
    add, sub, shl, shr, greaterEqual, greater, lowerEqual, lower, equal, notEqual, bitAnd, xor,
    bitOr, logAnd, logOr, tertIf, tertElse, number, mem, none]

def code (t : ExpressionOpcodeType) : UInt64 := .ofNat (all.idxOf t)

def ofCode (n : UInt64) : ExpressionOpcodeType := all.getD n.toNat none

@[simp] theorem ofCode_code (t : ExpressionOpcodeType) : ofCode t.code = t := by
  cases t <;> rfl

end ExpressionOpcodeType

open ExpressionOpcodeType

def tolower (c : Char) : Char := c.toLower

def isAlphaNum (c : Char) : Bool :=
  ('0' ≤ c && c ≤ '9') || ('A' ≤ c && c ≤ 'Z') || ('a' ≤ c && c ≤ 'z') ||
    c == '@' || c == '_' || c == '$' || c == '.'

/-- The digits of radix 2, 8 and 10. -/
def parseDigits (radix : Nat) (str : List Char) : Option UInt64 :=
  str.foldlM (fun val c =>
    if '0' ≤ c ∧ c.toNat < '0'.toNat + radix then
      some (val * .ofNat radix + .ofNat (c.toNat - '0'.toNat))
    else none) 0

def parseHex (str : List Char) : Option UInt64 :=
  str.foldlM (fun val c =>
    let c := tolower c
    if (c < '0' ∨ '9' < c) ∧ (c < 'a' ∨ 'f' < c) then none
    else if 'a' ≤ c then some ((val <<< 4) + .ofNat (c.toNat - 'a'.toNat + 10))
    else some ((val <<< 4) + .ofNat (c.toNat - '0'.toNat))) 0

def parseRadix (r : Nat) (str : List Char) : Option UInt64 :=
  if r = 2 ∨ r = 8 ∨ r = 10 then parseDigits r str
  else if r = 16 then parseHex str
  else .none

/-- `parseNumber` on the characters of `str`, its length given. -/
def parseNumber (str : List Char) (defaultrad : Nat) : Option UInt64 :=
  if str[0]? = some '0' ∧ str[1]?.map tolower = some 'x' then parseRadix 16 (str.drop 2)
  else if str[0]? = some '$' then parseRadix 16 (str.drop 1)
  else if str[0]? = some '0' ∧ str[1]?.map tolower = some 'o' then parseRadix 8 (str.drop 2)
  else if ¬ str[0]?.any (fun c => '0' ≤ c && c ≤ '9') then .none
  else if str.getLast?.map tolower = some 'b' ∧ defaultrad ≠ 16 then parseRadix 2 str.dropLast
  else if str.getLast?.map tolower = some 'o' then parseRadix 8 str.dropLast
  else if str.getLast?.map tolower = some 'h' then parseRadix 16 str.dropLast
  else parseRadix defaultrad str

/-- `parseFloat`: digits with one point among them. -/
def isFloat (str : List Char) : Bool :=
  str.all (fun c => c == '.' || ('0' ≤ c && c ≤ '9')) && str.count '.' == 1

/-- The longest operator at the start of `str`, and its length. -/
def getExpressionOpcode (str : List Char) (lastOpcode : ExpressionOpcodeType) :
    ExpressionOpcodeType × Nat :=
  (ExpressionOpcodeType.all.take 29).foldl (fun result t =>
    if t.info.sign ∧ (lastOpcode = number ∨ lastOpcode = bracketR) then result
    else if result.2 < t.info.len ∧ t.info.name.isPrefixOf str then (t, t.info.len)
    else result) (.none, 0)

end OmegaRed.DebugTools

/-! From the text of an expression to its postfix form, and the evaluation of that. -/

namespace OmegaRed.DebugTools

open Lib.OperatorStack ExpressionOpcodeType

inductive ExpressionType
  | uint | float
  deriving DecidableEq

structure ExpressionPair where
  first : ExpressionCommand
  second : UInt64
  deriving DecidableEq

abbrev PostfixExpression := List ExpressionPair

structure IExpressionFunctions where
  parseReference : List Char → Option UInt64
  parseSymbol : List Char → Option UInt64
  getReferenceValue : UInt64 → UInt64
  getReferenceType : UInt64 → ExpressionType
  getMemoryValue : UInt32 → Int → Except String UInt64

/-- The host's floating point, on values of 64 bits and back. -/
structure FloatOps where
  atof : List Char → UInt64
  neg : UInt64 → UInt64
  mul : UInt64 → UInt64 → UInt64
  div : UInt64 → UInt64 → UInt64
  add : UInt64 → UInt64 → UInt64
  sub : UInt64 → UInt64 → UInt64
  le : UInt64 → UInt64 → Bool
  lt : UInt64 → UInt64 → Bool

def op (t : ExpressionOpcodeType) : ExpressionPair := ⟨.op, t.code⟩

/-- `(` and `[`, which no operator pops. -/
def isOpening (t : ExpressionOpcodeType) : Bool := t == bracketL || t == memL

structure InitState where
  rest : List Char
  lastOpcode : ExpressionOpcodeType
  /-- The last pushed first. -/
  opcodeStack : List ExpressionOpcodeType
  dest : PostfixExpression

namespace InitState

/-- What the operator `type` does to the stack and the postfix form. -/
def feedOp (s : InitState) (type : ExpressionOpcodeType) : Except String InitState :=
  match type with
  | bracketL | memL =>
    .ok { s with lastOpcode := type, opcodeStack := type :: s.opcodeStack }
  | bracketR =>
    match popToFence (· == bracketL) s.opcodeStack with
    | .none => .error "Closing parenthesis without opening one"
    | some (popped, stack) =>
      .ok { s with lastOpcode := type, opcodeStack := stack, dest := s.dest ++ popped.map op }
  | memR =>
    match popToFence (· == memL) s.opcodeStack with
    | .none => .error "Closing bracket without opening one"
    | some (popped, stack) =>
      .ok { s with
        lastOpcode := number, opcodeStack := stack, dest := s.dest ++ popped.map op ++ [op mem] }
  | _ =>
    let (popped, stack) :=
      popPending (fun t => t.info.priority) isOpening type.info.priority s.opcodeStack
    .ok { s with
      lastOpcode := type, opcodeStack := type :: stack, dest := s.dest ++ popped.map op }

def feedValue (s : InitState) (command : ExpressionCommand) (value : UInt64) : InitState :=
  { s with lastOpcode := number, dest := s.dest ++ [⟨command, value⟩] }

end InitState

variable (funcs : IExpressionFunctions) (float : FloatOps)

/-- One turn of `initPostfixExpression`'s loop, at the character `c`. Runs of letters and digits
that overflow the buffer `subStr` are not modelled. -/
def initStep (s : InitState) (c : Char) : Except String InitState :=
  let first := tolower c
  let subStr := s.rest.takeWhile isAlphaNum
  let behind := { s with rest := s.rest.dropWhile isAlphaNum }
  if first = ' ' ∨ first = '\t' then .ok { s with rest := s.rest.drop 1 }
  else if '0' ≤ first ∧ first ≤ '9' then
    if isFloat subStr then .ok (behind.feedValue .constFloat (float.atof subStr))
    else match parseNumber subStr 16 with
      | some value => .ok (behind.feedValue .const value)
      | .none => .error ("Invalid number \"" ++ .ofList subStr ++ "\"")
  else if ('a' ≤ first ∧ first ≤ 'z') ∨ first = '@' then
    match funcs.parseReference subStr with
    | some value => .ok (behind.feedValue .ref value)
    | .none => match funcs.parseSymbol subStr with
      | some value => .ok (behind.feedValue .const value)
      | .none => .error ("Invalid symbol \"" ++ .ofList subStr ++ "\"")
  else
    let (type, len) := getExpressionOpcode s.rest s.lastOpcode
    if type = .none then .error ("Invalid operator at \"" ++ .ofList s.rest ++ "\"")
    else { s with rest := s.rest.drop len }.feedOp type

/-- The loop, from a position `left` characters before `infixLen`; `fuel` bounds its turns. -/
def initLoop : Nat → Int → InitState → Except String InitState
  | 0, _, s => .ok s
  | fuel + 1, left, s =>
    match s.rest with
    | [] => .ok s
    | c :: _ =>
      if left ≤ 0 then .ok s
      else do
        let t ← initStep funcs float s c
        initLoop fuel (left - (s.rest.length - t.rest.length)) t

/-- An `int` holds the length of the text. -/
def initPostfixExpression (text : List Char) : Except String PostfixExpression := do
  let infixLen := CDVD.toInt32 text.length
  let s ← initLoop funcs float (text.length + 1) infixLen ⟨text, .none, [], []⟩
  match popToFence (· == bracketL) s.opcodeStack with
  | some _ => .error "Parenthesis not closed"
  | .none => .ok (s.dest ++ s.opcodeStack.map op)

def ofBool (b : Bool) : UInt64 := if b then 1 else 0

/-- What an operator that looks at nothing but its arguments pushes; `arg 0` is the last pushed
of them. The machine takes the amount of a shift modulo 64. -/
def operate (useFloat : Bool) (t : ExpressionOpcodeType) (arg : Nat → UInt64) :
    Except String (List UInt64) :=
  match t with
  | .signMinus => .ok [if useFloat then float.neg (arg 0) else 0 - arg 0]
  | .bitNot => .ok [~~~arg 0]
  | .logNot => .ok [ofBool (arg 0 == 0)]
  | .mul => .ok [if useFloat then float.mul (arg 1) (arg 0) else arg 1 * arg 0]
  | .div =>
    if arg 0 = 0 then .error "Division by zero"
    else .ok [if useFloat then float.div (arg 1) (arg 0) else arg 1 / arg 0]
  | .mod => if arg 0 = 0 then .error "Modulo by zero" else .ok [arg 1 % arg 0]
  | .add => .ok [if useFloat then float.add (arg 1) (arg 0) else arg 1 + arg 0]
  | .sub => .ok [if useFloat then float.sub (arg 1) (arg 0) else arg 1 - arg 0]
  | .shl => .ok [arg 1 <<< arg 0]
  | .shr => .ok [arg 1 >>> arg 0]
  | .greaterEqual =>
    .ok [ofBool (if useFloat then float.le (arg 0) (arg 1) else decide (arg 0 ≤ arg 1))]
  | .greater => .ok [ofBool (if useFloat then float.lt (arg 0) (arg 1) else decide (arg 0 < arg 1))]
  | .lowerEqual =>
    .ok [ofBool (if useFloat then float.le (arg 1) (arg 0) else decide (arg 1 ≤ arg 0))]
  | .lower => .ok [ofBool (if useFloat then float.lt (arg 1) (arg 0) else decide (arg 1 < arg 0))]
  | .equal => .ok [ofBool (arg 1 == arg 0)]
  | .notEqual => .ok [ofBool (arg 1 != arg 0)]
  | .bitAnd => .ok [arg 1 &&& arg 0]
  | .xor => .ok [arg 1 ^^^ arg 0]
  | .bitOr => .ok [arg 1 ||| arg 0]
  | .logAnd => .ok [ofBool (arg 1 != 0 && arg 0 != 0)]
  | .logOr => .ok [ofBool (arg 1 != 0 || arg 0 != 0)]
  | .tertIf => .error ""
  -- the sign plus has taken its argument and pushes nothing
  | _ => .ok []

/-- The loop of `parsePostfixExpression`; the last pushed value is first on the stack. A failure
without a message has the empty one. -/
def postfixLoop : PostfixExpression → Bool → List UInt64 → Except String (List UInt64)
  | [], _, valueStack => .ok valueStack
  | ⟨.const, value⟩ :: exp, useFloat, valueStack => postfixLoop exp useFloat (value :: valueStack)
  | ⟨.constFloat, value⟩ :: exp, _, valueStack => postfixLoop exp true (value :: valueStack)
  | ⟨.ref, index⟩ :: exp, useFloat, valueStack =>
    postfixLoop exp (useFloat || funcs.getReferenceType index == .float)
      (funcs.getReferenceValue index :: valueStack)
  | ⟨.op, opcode⟩ :: exp, useFloat, valueStack =>
    let t := ofCode opcode
    let arg (l : Nat) := valueStack.getD l 0
    let stack := valueStack.drop t.info.args
    if valueStack.length < t.info.args then .error "Not enough arguments"
    else match t, exp with
      | .memSize, next :: exp =>
        if next.second ≠ mem.code then .error "Invalid memsize operator"
        else do
          let val ← funcs.getMemoryValue (arg 1).toUInt32 (CDVD.toInt32 (arg 0).toNat)
          postfixLoop exp useFloat (val :: stack)
      | .memSize, [] => .error "Invalid memsize operator"
      | .mem, exp => do
        let val ← funcs.getMemoryValue (arg 0).toUInt32 4
        postfixLoop exp useFloat (val :: stack)
      | .tertElse, next :: exp =>
        if next.second ≠ tertIf.code then .error "Invalid tertiary operator"
        else postfixLoop exp useFloat ((if arg 2 ≠ 0 then arg 1 else arg 0) :: stack)
      | .tertElse, [] => .error "Invalid tertiary operator"
      | t, exp => do
        let pushed ← operate float useFloat t arg
        postfixLoop exp useFloat (pushed ++ stack)

def parsePostfixExpression (exp : PostfixExpression) : Except String UInt64 := do
  match ← postfixLoop funcs float exp false [] with
  | [value] => .ok value
  | _ => .error ""

def parseExpression (text : List Char) : Except String UInt64 := do
  let exp ← initPostfixExpression funcs float text
  parsePostfixExpression funcs float exp

end OmegaRed.DebugTools
