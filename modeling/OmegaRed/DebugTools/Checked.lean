import OmegaRed.DebugTools.Postfix

/-! The expression parser with every access to its buffers checked. -/

namespace OmegaRed.DebugTools

open Lib.OperatorStack ExpressionOpcodeType InitState

inductive Fault
  | tokenBuffer | postfixVector | valueStack
  /-- The loop has not come to its end. -/
  | rounds
  deriving DecidableEq, Repr

variable (funcs : IExpressionFunctions) (float : FloatOps)

/-- The copy of a token into `subStr`, of 256 characters with the NUL, and the text behind it. -/
def copyToken (subStr : List Char) : List Char → Except Fault (List Char × List Char)
  | [] => if subStr.length < 256 then .ok (subStr, []) else .error .tokenBuffer
  | c :: rest =>
    if subStr.length < 256 then
      if isAlphaNum c then copyToken (subStr ++ [c]) rest else .ok (subStr, c :: rest)
    else .error .tokenBuffer

/-- At a digit or a letter a token is copied. -/
def startsToken (c : Char) : Bool :=
  let first := tolower c
  ('0' ≤ first && first ≤ '9') || ('a' ≤ first && first ≤ 'z') || first == '@'

def initStepChecked (s : InitState) (c : Char) : Except Fault (Except String InitState) :=
  if startsToken c then do
    let _ ← copyToken [] s.rest
    .ok (initStep funcs float s c)
  else .ok (initStep funcs float s c)

def initLoopChecked : Nat → Int → InitState → Except Fault (Except String InitState)
  | 0, _, _ => .error .rounds
  | fuel + 1, left, s =>
    match s.rest with
    | [] => .ok (.ok s)
    | c :: _ =>
      if left ≤ 0 then .ok (.ok s)
      else do
        match ← initStepChecked funcs float s c with
        | .error e => .ok (.error e)
        | .ok t => initLoopChecked fuel (left - (s.rest.length - t.rest.length)) t

def initPostfixExpressionChecked (text : List Char) :
    Except Fault (Except String PostfixExpression) := do
  match ← initLoopChecked funcs float (text.length + 1) (CDVD.toInt32 text.length)
    ⟨text, .none, [], []⟩ with
  | .error e => .ok (.error e)
  | .ok s =>
    match popToFence (· == bracketL) s.opcodeStack with
    | some _ => .ok (.error "Parenthesis not closed")
    | .none => .ok (.ok (s.dest ++ s.opcodeStack.map op))

/-- The stack without its last `n` values. -/
def popValues : Nat → List UInt64 → Except Fault (List UInt64)
  | 0, stack => .ok stack
  | _ + 1, [] => .error .valueStack
  | n + 1, _ :: stack => popValues n stack

/-- One turn of `parsePostfixExpression`'s loop, at the first of the vector, `exp` behind it. -/
def postfixTurn (pair : ExpressionPair) (exp : PostfixExpression) (useFloat : Bool)
    (valueStack : List UInt64) :
    Except Fault (Except String (PostfixExpression × Bool × List UInt64)) :=
  match pair.first with
  | .const => .ok (.ok (exp, useFloat, pair.second :: valueStack))
  | .constFloat => .ok (.ok (exp, true, pair.second :: valueStack))
  | .ref =>
    .ok (.ok (exp, useFloat || funcs.getReferenceType pair.second == .float,
      funcs.getReferenceValue pair.second :: valueStack))
  | .op =>
    let t := ofCode pair.second
    let arg (l : Nat) := valueStack.getD l 0
    if valueStack.length < t.info.args then .ok (.error "Not enough arguments")
    else match popValues t.info.args valueStack with
      | .error fault => .error fault
      | .ok stack =>
        match t, exp with
        | .memSize, next :: exp =>
          if next.second ≠ mem.code then .ok (.error "Invalid memsize operator")
          else .ok ((funcs.getMemoryValue (arg 1).toUInt32 (CDVD.toInt32 (arg 0).toNat)).map
            fun val => (exp, useFloat, val :: stack))
        | .memSize, [] => .error .postfixVector
        | .mem, exp =>
          .ok ((funcs.getMemoryValue (arg 0).toUInt32 4).map fun val => (exp, useFloat, val :: stack))
        | .tertElse, next :: exp =>
          if next.second ≠ tertIf.code then .ok (.error "Invalid tertiary operator")
          else .ok (.ok (exp, useFloat, (if arg 2 ≠ 0 then arg 1 else arg 0) :: stack))
        | .tertElse, [] => .error .postfixVector
        | t, exp =>
          .ok ((operate float useFloat t arg).map fun pushed => (exp, useFloat, pushed ++ stack))

def postfixLoopChecked : Nat → PostfixExpression → Bool → List UInt64 →
    Except Fault (Except String (List UInt64))
  | 0, _, _, _ => .error .rounds
  | _ + 1, [], _, valueStack => .ok (.ok valueStack)
  | fuel + 1, pair :: exp, useFloat, valueStack => do
    match ← postfixTurn funcs float pair exp useFloat valueStack with
    | .error e => .ok (.error e)
    | .ok (exp, useFloat, valueStack) => postfixLoopChecked fuel exp useFloat valueStack

def parsePostfixExpressionChecked (exp : PostfixExpression) :
    Except Fault (Except String UInt64) := do
  match ← postfixLoopChecked funcs float (exp.length + 1) exp false [] with
  | .error e => .ok (.error e)
  | .ok [value] => .ok (.ok value)
  | .ok _ => .ok (.error "")

def parseExpressionChecked (text : List Char) : Except Fault (Except String UInt64) := do
  match ← initPostfixExpressionChecked funcs float text with
  | .error e => .ok (.error e)
  | .ok exp => parsePostfixExpressionChecked funcs float exp

/-! ## Without a fault it is the same run -/

variable {funcs float}

theorem initStepChecked_eq_ok {s : InitState} {c : Char} {r : Except String InitState}
    (h : initStepChecked funcs float s c = .ok r) : initStep funcs float s c = r := by
  rw [initStepChecked] at h
  split at h
  · cases hcopy : copyToken [] s.rest with
    | error f =>
      rw [hcopy] at h
      cases h
    | ok token =>
      rw [hcopy] at h
      exact Except.ok.inj h
  · exact Except.ok.inj h

theorem initLoopChecked_eq_ok {fuel : Nat} {left : Int} {s : InitState}
    {r : Except String InitState} (h : initLoopChecked funcs float fuel left s = .ok r) :
    initLoop funcs float fuel left s = r := by
  induction fuel generalizing left s with
  | zero => cases h
  | succ fuel ih =>
    rw [initLoopChecked] at h
    rw [initLoop]
    cases hrest : s.rest with
    | nil =>
      rw [hrest] at h
      exact Except.ok.inj h
    | cons c cs =>
      rw [hrest] at h
      dsimp only at h ⊢
      split
      next hleft =>
        rw [if_pos hleft] at h
        exact Except.ok.inj h
      next hleft =>
        rw [if_neg hleft] at h
        cases hstep : initStepChecked funcs float s c with
        | error f =>
          rw [hstep] at h
          cases h
        | ok u =>
          rw [initStepChecked_eq_ok hstep]
          rw [hstep] at h
          cases u with
          | error e => exact Except.ok.inj h
          | ok t => exact ih h

theorem initPostfixExpressionChecked_eq_ok {text : List Char}
    {r : Except String PostfixExpression}
    (h : initPostfixExpressionChecked funcs float text = .ok r) :
    initPostfixExpression funcs float text = r := by
  rw [initPostfixExpressionChecked] at h
  cases hloop : initLoopChecked funcs float (text.length + 1) (CDVD.toInt32 text.length)
      ⟨text, .none, [], []⟩ with
  | error f =>
    rw [hloop] at h
    cases h
  | ok u =>
    rw [hloop] at h
    rw [initPostfixExpression, initLoopChecked_eq_ok hloop]
    cases u with
    | error e => exact Except.ok.inj h
    | ok s =>
      change (match popToFence (· == bracketL) s.opcodeStack with
        | some _ => Except.ok (Except.error "Parenthesis not closed")
        | .none => .ok (.ok (s.dest ++ s.opcodeStack.map op))) = _ at h
      change (match popToFence (· == bracketL) s.opcodeStack with
        | some _ => Except.error "Parenthesis not closed"
        | .none => .ok (s.dest ++ s.opcodeStack.map op)) = _
      cases hpop : popToFence (· == bracketL) s.opcodeStack with
      | none =>
        rw [hpop] at h
        exact Except.ok.inj h
      | some popped =>
        rw [hpop] at h
        exact Except.ok.inj h

theorem popValues_eq {n : Nat} {stack : List UInt64} (h : n ≤ stack.length) :
    popValues n stack = .ok (stack.drop n) := by
  induction n generalizing stack with
  | zero => rfl
  | succ n ih =>
    cases stack with
    | nil => exact absurd h (Nat.not_succ_le_zero n)
    | cons value stack => exact ih (Nat.le_of_succ_le_succ h)

theorem postfixLoop_cons (pair : ExpressionPair) (exp : PostfixExpression) (useFloat : Bool)
    (valueStack : List UInt64) {r : Except String (PostfixExpression × Bool × List UInt64)}
    (h : postfixTurn funcs float pair exp useFloat valueStack = .ok r) :
    postfixLoop funcs float (pair :: exp) useFloat valueStack =
      r.bind fun next => postfixLoop funcs float next.1 next.2.1 next.2.2 := by
  obtain ⟨first, second⟩ := pair
  cases first with
  | const | constFloat | ref =>
    cases h
    rfl
  | op =>
    rw [postfixTurn] at h
    rw [postfixLoop.eq_def]
    dsimp only at h ⊢
    generalize ofCode second = t at h ⊢
    split
    next hargs =>
      rw [if_pos hargs] at h
      cases h
      rfl
    next hargs =>
      rw [if_neg hargs, popValues_eq (Nat.not_lt.mp hargs)] at h
      cases t with
      | memSize =>
        cases exp with
        | nil => cases h
        | cons next exp =>
          dsimp only at h ⊢
          split
          next hmem =>
            rw [if_pos hmem] at h
            cases h
            rfl
          next hmem =>
            rw [if_neg hmem] at h
            cases h
            cases funcs.getMemoryValue (valueStack.getD 1 0).toUInt32
              (CDVD.toInt32 (valueStack.getD 0 0).toNat) <;> rfl
      | mem =>
        cases h
        dsimp only
        cases funcs.getMemoryValue (valueStack.getD 0 0).toUInt32 4 <;> rfl
      | tertElse =>
        cases exp with
        | nil => cases h
        | cons next exp =>
          dsimp only at h ⊢
          split
          next htert =>
            rw [if_pos htert] at h
            cases h
            rfl
          next htert =>
            rw [if_neg htert] at h
            cases h
            rfl
      | _ =>
        cases h
        dsimp only
        cases operate float useFloat _ _ <;> rfl

end OmegaRed.DebugTools
