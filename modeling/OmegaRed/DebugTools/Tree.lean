import OmegaRed.DebugTools.Postfix

/-! Expression trees: their value, how they are written, and their postfix form. -/

namespace OmegaRed.DebugTools

open ExpressionOpcodeType

inductive UnaryOp
  | plus | minus | bitNot | logNot
  deriving DecidableEq

inductive BinaryOp
  | mul | div | mod | add | sub | shl | shr | greaterEqual | greater | lowerEqual | lower
  | equal | notEqual | bitAnd | xor | bitOr | logAnd | logOr
  deriving DecidableEq

inductive Expr
  | const (n : UInt64)
  | unary (op : UnaryOp) (e : Expr)
  | binary (op : BinaryOp) (a b : Expr)
  | ternary (c a b : Expr)
  deriving DecidableEq

def UnaryOp.opcode : UnaryOp → ExpressionOpcodeType
  | .plus => .signPlus
  | .minus => .signMinus
  | .bitNot => .bitNot
  | .logNot => .logNot

def BinaryOp.opcode : BinaryOp → ExpressionOpcodeType
  | .mul => .mul
  | .div => .div
  | .mod => .mod
  | .add => .add
  | .sub => .sub
  | .shl => .shl
  | .shr => .shr
  | .greaterEqual => .greaterEqual
  | .greater => .greater
  | .lowerEqual => .lowerEqual
  | .lower => .lower
  | .equal => .equal
  | .notEqual => .notEqual
  | .bitAnd => .bitAnd
  | .xor => .xor
  | .bitOr => .bitOr
  | .logAnd => .logAnd
  | .logOr => .logOr

def UnaryOp.apply : UnaryOp → UInt64 → UInt64
  | .plus, x => x
  | .minus, x => -x
  | .bitNot, x => ~~~x
  | .logNot, x => ofBool (x == 0)

def BinaryOp.apply : BinaryOp → UInt64 → UInt64 → Except String UInt64
  | .mul, x, y => .ok (x * y)
  | .div, x, y => if y = 0 then .error "Division by zero" else .ok (x / y)
  | .mod, x, y => if y = 0 then .error "Modulo by zero" else .ok (x % y)
  | .add, x, y => .ok (x + y)
  | .sub, x, y => .ok (x - y)
  | .shl, x, y => .ok (x <<< y)
  | .shr, x, y => .ok (x >>> y)
  | .greaterEqual, x, y => .ok (ofBool (decide (x ≥ y)))
  | .greater, x, y => .ok (ofBool (decide (x > y)))
  | .lowerEqual, x, y => .ok (ofBool (decide (x ≤ y)))
  | .lower, x, y => .ok (ofBool (decide (x < y)))
  | .equal, x, y => .ok (ofBool (x == y))
  | .notEqual, x, y => .ok (ofBool (x != y))
  | .bitAnd, x, y => .ok (x &&& y)
  | .xor, x, y => .ok (x ^^^ y)
  | .bitOr, x, y => .ok (x ||| y)
  | .logAnd, x, y => .ok (ofBool (x != 0 && y != 0))
  | .logOr, x, y => .ok (ofBool (x != 0 || y != 0))

namespace Expr

/-- The value of a tree; a division by zero anywhere in it is its error. -/
def value : Expr → Except String UInt64
  | const n => .ok n
  | unary op e => do
    let x ← e.value
    .ok (op.apply x)
  | binary op a b => do
    let x ← a.value
    let y ← b.value
    op.apply x y
  | ternary c a b => do
    let x ← c.value
    let y ← a.value
    let z ← b.value
    .ok (if x ≠ 0 then y else z)

/-- The priority of the operator at the root; nothing binds stronger than a constant. -/
def level : Expr → Nat
  | const _ => 25
  | unary op _ => op.opcode.info.priority
  | binary op _ _ => op.opcode.info.priority
  | ternary _ _ _ => tertIf.info.priority

end Expr

inductive Token
  | num (n : UInt64)
  | op (t : ExpressionOpcodeType)
  deriving DecidableEq

def parens (ts : List Token) : List Token := .op bracketL :: ts ++ [.op bracketR]

namespace Expr

/-- The tree in infix form. An operand stands in parentheses if its operator binds weaker than
the one it belongs to, or, on the side that a chain of equal operators does not associate to,
no stronger. -/
def tokens : Expr → List Token
  | const n => [.num n]
  | unary op e =>
    .op op.opcode :: (if e.level < op.opcode.info.priority then parens e.tokens else e.tokens)
  | binary op a b =>
    (if a.level < op.opcode.info.priority then parens a.tokens else a.tokens) ++
      .op op.opcode :: (if b.level ≤ op.opcode.info.priority then parens b.tokens else b.tokens)
  | ternary c a b =>
    (if c.level ≤ tertIf.info.priority then parens c.tokens else c.tokens) ++
      .op tertIf :: a.tokens ++ .op tertElse :: b.tokens

/-- The postfix form of the tree. -/
def toPostfix : Expr → PostfixExpression
  | const n => [⟨.const, n⟩]
  | unary op e => e.toPostfix ++ [DebugTools.op op.opcode]
  | binary op a b => a.toPostfix ++ b.toPostfix ++ [DebugTools.op op.opcode]
  | ternary c a b =>
    c.toPostfix ++ a.toPostfix ++ b.toPostfix ++ [DebugTools.op tertElse, DebugTools.op tertIf]

def isUnary : Expr → Bool
  | unary _ _ => true
  | _ => false

def isTernary : Expr → Bool
  | ternary _ _ _ => true
  | _ => false

/-- No sign plus, no unary operator right before another one, and no ternary operator that is
itself an operand behind the `?` of another one. -/
def Plain : Expr → Prop
  | const _ => True
  | unary op e => op ≠ .plus ∧ e.isUnary = false ∧ e.Plain
  | binary _ a b => a.Plain ∧ b.Plain
  | ternary c a b =>
    a.isTernary = false ∧ b.isTernary = false ∧ c.Plain ∧ a.Plain ∧ b.Plain

end Expr

section

variable (funcs : IExpressionFunctions) (float : FloatOps)

/-- An operator with the values of its arguments on the stack, the last one first. -/
theorem postfixLoop_op {t : ExpressionOpcodeType} (exp : PostfixExpression)
    (args stack : List UInt64) (hargs : args.length = t.info.args)
    (ht : t ≠ memSize ∧ t ≠ mem ∧ t ≠ tertElse) :
    postfixLoop funcs float (op t :: exp) false (args ++ stack) =
      (operate float false t fun l => (args ++ stack).getD l 0) >>= fun pushed =>
        postfixLoop funcs float exp false (pushed ++ stack) := by
  obtain ⟨h1, h2, h3⟩ := ht
  have hlen : ¬ (args ++ stack).length < t.info.args := by
    rw [List.length_append, hargs]
    omega
  have hdrop : (args ++ stack).drop t.info.args = stack := by rw [← hargs, List.drop_left]
  conv_lhs => unfold postfixLoop
  simp only [op, ofCode_code, hdrop, if_neg hlen]
  cases t <;> first | rfl | contradiction

theorem postfixLoop_unary (op : UnaryOp) (h : op ≠ .plus) (exp : PostfixExpression) (x : UInt64)
    (stack : List UInt64) :
    postfixLoop funcs float (DebugTools.op op.opcode :: exp) false (x :: stack) =
      postfixLoop funcs float exp false (op.apply x :: stack) := by
  have hargs : op.opcode.info.args = 1 := by cases op <;> rfl
  have hother : op.opcode ≠ memSize ∧ op.opcode ≠ mem ∧ op.opcode ≠ tertElse := by
    cases op <;> decide
  have hoperate : operate float false op.opcode (fun l => ([x] ++ stack).getD l 0) =
      .ok [op.apply x] := by
    cases op with
    | plus => contradiction
    | minus => simp [UnaryOp.opcode, operate, UnaryOp.apply]
    | bitNot => rfl
    | logNot => rfl
  rw [show x :: stack = [x] ++ stack from rfl,
    postfixLoop_op funcs float exp [x] stack hargs.symm hother, hoperate]
  rfl

theorem postfixLoop_binary (op : BinaryOp) (exp : PostfixExpression) (x y : UInt64)
    (stack : List UInt64) :
    postfixLoop funcs float (DebugTools.op op.opcode :: exp) false (y :: x :: stack) =
      op.apply x y >>= fun z => postfixLoop funcs float exp false (z :: stack) := by
  have hargs : op.opcode.info.args = 2 := by cases op <;> rfl
  have hother : op.opcode ≠ memSize ∧ op.opcode ≠ mem ∧ op.opcode ≠ tertElse := by
    cases op <;> decide
  have hoperate : operate float false op.opcode (fun l => ([y, x] ++ stack).getD l 0) =
      (op.apply x y).map fun z => [z] := by
    cases op with
    | div => by_cases h : y = 0 <;> simp [BinaryOp.opcode, operate, BinaryOp.apply, h, Except.map]
    | mod => by_cases h : y = 0 <;> simp [BinaryOp.opcode, operate, BinaryOp.apply, h, Except.map]
    | _ => rfl
  rw [show y :: x :: stack = [y, x] ++ stack from rfl,
    postfixLoop_op funcs float exp [y, x] stack hargs.symm hother, hoperate]
  cases op.apply x y <;> rfl

theorem postfixLoop_ternary (exp : PostfixExpression) (x y z : UInt64) (stack : List UInt64) :
    postfixLoop funcs float (op tertElse :: op tertIf :: exp) false (z :: y :: x :: stack) =
      postfixLoop funcs float exp false ((if x ≠ 0 then y else z) :: stack) := by
  have hlen : ¬ (z :: y :: x :: stack).length < tertElse.info.args := by
    simp only [List.length_cons, info]
    omega
  conv_lhs => unfold postfixLoop
  simp only [op, ofCode_code, if_neg hlen]
  rfl

theorem postfixLoop_toPostfix (e : Expr) (h : e.Plain) (exp : PostfixExpression)
    (stack : List UInt64) :
    postfixLoop funcs float (e.toPostfix ++ exp) false stack =
      e.value >>= fun x => postfixLoop funcs float exp false (x :: stack) := by
  induction e generalizing exp stack with
  | const n => rfl
  | unary op e ih =>
    obtain ⟨hop, -, he⟩ := h
    rw [Expr.toPostfix, Expr.value, List.append_assoc, ih he, bind_assoc]
    congr 1
    funext x
    exact postfixLoop_unary funcs float op hop exp x stack
  | binary op a b iha ihb =>
    obtain ⟨ha, hb⟩ := h
    rw [Expr.toPostfix, Expr.value, List.append_assoc, List.append_assoc, iha ha, bind_assoc]
    congr 1
    funext x
    rw [ihb hb, bind_assoc]
    congr 1
    funext y
    exact postfixLoop_binary funcs float op exp x y stack
  | ternary c a b ihc iha ihb =>
    obtain ⟨-, -, hc, ha, hb⟩ := h
    rw [Expr.toPostfix, Expr.value, List.append_assoc, List.append_assoc, List.append_assoc,
      ihc hc, bind_assoc]
    congr 1
    funext x
    rw [iha ha, bind_assoc]
    congr 1
    funext y
    rw [ihb hb, bind_assoc]
    congr 1
    funext z
    exact postfixLoop_ternary funcs float exp x y z stack

theorem parsePostfixExpression_toPostfix (e : Expr) (h : e.Plain) :
    parsePostfixExpression funcs float e.toPostfix = e.value := by
  have hloop := postfixLoop_toPostfix funcs float e h [] []
  rw [List.append_nil] at hloop
  rw [parsePostfixExpression, hloop, bind_assoc]
  cases e.value <;> rfl

end

end OmegaRed.DebugTools

/-! What the operator stack makes of the tokens of a tree: the tree's postfix form. -/

namespace OmegaRed.DebugTools

open Lib.OperatorStack ExpressionOpcodeType

/-- The operator stack's order. -/
abbrev prio (t : ExpressionOpcodeType) : Nat := t.info.priority

namespace InitState

def feed (s : InitState) : Token → Except String InitState
  | .num n => .ok (s.feedValue .const n)
  | .op t => s.feedOp t

end InitState

open InitState

/-- Neither a bracket nor the end of one. -/
def Ordinary (t : ExpressionOpcodeType) : Prop :=
  t ≠ bracketL ∧ t ≠ bracketR ∧ t ≠ memL ∧ t ≠ memR

instance (t : ExpressionOpcodeType) : Decidable (Ordinary t) := inferInstanceAs (Decidable (_ ∧ _))

theorem Ordinary.not_opening {t : ExpressionOpcodeType} (h : Ordinary t) :
    isOpening t = false := by
  obtain ⟨h1, -, h3, -⟩ := h
  simp [isOpening, h1, h3]

theorem feedOp_of_pending {t : ExpressionOpcodeType} (h : Ordinary t)
    {pend stack : List ExpressionOpcodeType} (hp : Pending prio isOpening (prio t) pend)
    (hb : Blocked prio isOpening (prio t) stack) (rest : List Char)
    (last : ExpressionOpcodeType) (dest : PostfixExpression) :
    feedOp ⟨rest, last, pend ++ stack, dest⟩ t =
      .ok ⟨rest, t, t :: stack, dest ++ pend.map op⟩ := by
  obtain ⟨h1, h2, h3, h4⟩ := h
  have hpop := hp.popPending_append hb
  cases t <;> first | contradiction | simp only [feedOp, hpop]

/-- The tokens, fed to the stack `stack`, leave operators of priority `p` and more behind on it;
with these the postfix form `out` is written. -/
def Reads (ts : List Token) (stack : List ExpressionOpcodeType) (p : Nat)
    (out : PostfixExpression) : Prop :=
  ∀ rest last dest, ∃ last' pend done,
    (∀ ts', (ts ++ ts').foldlM feed ⟨rest, last, stack, dest⟩ =
      ts'.foldlM feed ⟨rest, last', pend ++ stack, dest ++ done⟩) ∧
    Pending prio isOpening p pend ∧ done ++ pend.map op = out

theorem Reads.mono {ts : List Token} {stack : List ExpressionOpcodeType} {p q : Nat}
    {out : PostfixExpression} (h : Reads ts stack p out) (hq : q ≤ p) : Reads ts stack q out := by
  intro rest last dest
  obtain ⟨last', pend, done, hfeed, hp, hout⟩ := h rest last dest
  exact ⟨last', pend, done, hfeed, hp.mono hq, hout⟩

theorem reads_num (n : UInt64) (stack : List ExpressionOpcodeType) (p : Nat) :
    Reads [.num n] stack p [⟨.const, n⟩] := by
  intro rest last dest
  exact ⟨number, [], [⟨.const, n⟩], fun _ => rfl, pending_nil p, rfl⟩

theorem pending_not_bracketL {p : Nat} {pend : List ExpressionOpcodeType}
    (hp : Pending prio isOpening p pend) : ∀ a ∈ pend, (a == bracketL) = false := by
  intro a ha
  have hopen := (hp a ha).1
  rw [isOpening, Bool.or_eq_false_iff] at hopen
  exact hopen.1

theorem Reads.parens {ts : List Token} {stack : List ExpressionOpcodeType} {p : Nat}
    {out : PostfixExpression} (h : Reads ts (bracketL :: stack) p out) (q : Nat) :
    Reads (parens ts) stack q out := by
  intro rest last dest
  obtain ⟨last', pend, done, hfeed, hp, hout⟩ := h rest bracketL dest
  have hpop : popToFence (· == bracketL) (pend ++ bracketL :: stack) = some (pend, stack) :=
    popToFence_append (pending_not_bracketL hp) rfl
  refine ⟨bracketR, [], out, fun ts' => ?_, pending_nil q, by simp⟩
  have hopen : feed ⟨rest, last, stack, dest⟩ (.op bracketL) =
      .ok ⟨rest, bracketL, bracketL :: stack, dest⟩ := rfl
  have hclose : feed ⟨rest, last', pend ++ bracketL :: stack, dest ++ done⟩ (.op bracketR) =
      .ok ⟨rest, bracketR, stack, dest ++ out⟩ := by
    simp only [feed, feedOp, hpop, ← hout, List.append_assoc]
  rw [DebugTools.parens, List.cons_append, List.cons_append, List.foldlM_cons, hopen]
  change ((ts ++ [Token.op bracketR]) ++ ts').foldlM feed _ = _
  rw [List.append_assoc, hfeed, List.cons_append, List.foldlM_cons, hclose]
  rfl

theorem Reads.unary {t : ExpressionOpcodeType} (ht : Ordinary t) {ts : List Token}
    {stack : List ExpressionOpcodeType} {out : PostfixExpression}
    (hb : Blocked prio isOpening (prio t) stack) (h : Reads ts (t :: stack) (prio t) out) :
    Reads (.op t :: ts) stack (prio t) (out ++ [op t]) := by
  intro rest last dest
  obtain ⟨last', pend, done, hfeed, hp, hout⟩ := h rest t dest
  refine ⟨last', pend ++ [t], done, fun ts' => ?_,
    hp.append (pending_singleton ht.not_opening (Nat.le_refl _)), ?_⟩
  · have hop := feedOp_of_pending ht (pending_nil (prio t)) hb rest last dest
    rw [List.nil_append, List.map_nil, List.append_nil] at hop
    rw [List.cons_append, List.foldlM_cons, show feed _ (.op t) = _ from hop]
    change (ts ++ ts').foldlM feed _ = _
    rw [hfeed, List.append_assoc]
    rfl
  · rw [List.map_append, ← List.append_assoc, hout]
    rfl

theorem Reads.binary {t : ExpressionOpcodeType} (ht : Ordinary t) {as bs : List Token}
    {stack : List ExpressionOpcodeType} {p : Nat} {outA outB : PostfixExpression}
    (hb : Blocked prio isOpening (prio t) stack) (ha : Reads as stack (prio t) outA)
    (hp : p ≤ prio t) (h : Reads bs (t :: stack) p outB) :
    Reads (as ++ .op t :: bs) stack p (outA ++ outB ++ [op t]) := by
  intro rest last dest
  obtain ⟨lastA, pendA, doneA, hfeedA, hpA, houtA⟩ := ha rest last dest
  obtain ⟨lastB, pendB, doneB, hfeedB, hpB, houtB⟩ := h rest t (dest ++ outA)
  refine ⟨lastB, pendB ++ [t], outA ++ doneB, fun ts' => ?_,
    hpB.append (pending_singleton ht.not_opening hp), ?_⟩
  · have hop := feedOp_of_pending ht hpA hb rest lastA (dest ++ doneA)
    rw [List.append_assoc, houtA] at hop
    rw [List.append_assoc, hfeedA, List.cons_append, List.foldlM_cons,
      show feed _ (.op t) = _ from hop]
    change (bs ++ ts').foldlM feed _ = _
    rw [hfeedB, List.append_assoc, List.append_assoc]
    rfl
  · rw [List.map_append, ← List.append_assoc, List.append_assoc outA, houtB]
    rfl

theorem UnaryOp.ordinary (op : UnaryOp) : Ordinary op.opcode := by
  cases op <;> decide

theorem BinaryOp.ordinary (op : BinaryOp) : Ordinary op.opcode := by
  cases op <;> decide

theorem UnaryOp.priority_eq (op : UnaryOp) : prio op.opcode = 22 := by
  cases op <;> rfl

theorem BinaryOp.priority_mem (op : BinaryOp) : 12 ≤ prio op.opcode ∧ prio op.opcode ≤ 21 := by
  cases op <;> decide

theorem Expr.level_of_not_ternary {e : Expr} (h : e.isTernary = false) : 12 ≤ e.level := by
  cases e with
  | const n => exact (by decide : 12 ≤ 25)
  | unary op e =>
    rw [level, show op.opcode.info.priority = 22 from op.priority_eq]
    decide
  | binary op a b => exact op.priority_mem.1
  | ternary c a b => contradiction

theorem Expr.level_of_not_unary {e : Expr} (h : e.isUnary = false) (hle : 22 ≤ e.level) :
    22 < e.level := by
  cases e with
  | const n => exact (by decide : 22 < 25)
  | unary op e => contradiction
  | binary op a b => exact absurd (Nat.le_trans hle op.priority_mem.2) (by decide)
  | ternary c a b => exact absurd hle (by decide : ¬ 22 ≤ 10)

theorem reads_operand {e : Expr}
    (ih : ∀ stack, Blocked prio isOpening e.level stack →
      Reads e.tokens stack e.level e.toPostfix)
    (stack : List ExpressionOpcodeType) {p : Nat} (c : Prop) [Decidable c]
    (h : ¬ c → Blocked prio isOpening e.level stack ∧ p ≤ e.level) :
    Reads (if c then parens e.tokens else e.tokens) stack p e.toPostfix := by
  split
  · exact (ih (bracketL :: stack) (blocked_of_fence rfl _ _)).parens p
  · next hc => exact (ih stack (h hc).1).mono (h hc).2

/-- A plain tree is read as it is written, on a stack that its weakest operator leaves alone. -/
theorem reads_tokens (e : Expr) (h : e.Plain) (stack : List ExpressionOpcodeType)
    (hb : Blocked prio isOpening e.level stack) : Reads e.tokens stack e.level e.toPostfix := by
  induction e generalizing stack with
  | const n => exact reads_num n stack _
  | unary op e ih =>
    obtain ⟨-, hu, he⟩ := h
    refine Reads.unary op.ordinary hb (reads_operand (ih he) _ _ fun hc => ?_)
    have hlt : prio op.opcode < e.level := by
      rw [op.priority_eq]
      rw [show op.opcode.info.priority = 22 from op.priority_eq] at hc
      exact Expr.level_of_not_unary hu (Nat.le_of_not_lt hc)
    exact ⟨blocked_of_lt hlt _, Nat.le_of_lt hlt⟩
  | binary op a b iha ihb =>
    obtain ⟨ha, hb'⟩ := h
    refine Reads.binary op.ordinary hb (reads_operand (iha ha) _ _ fun hc => ?_) (Nat.le_refl _)
      (reads_operand (ihb hb') _ _ fun hc => ?_)
    · have hle : prio op.opcode ≤ a.level := Nat.le_of_not_lt hc
      exact ⟨hb.mono hle, hle⟩
    · have hlt : prio op.opcode < b.level := Nat.lt_of_not_le hc
      exact ⟨blocked_of_lt hlt _, Nat.le_of_lt hlt⟩
  | ternary c a b ihc iha ihb =>
    obtain ⟨hta, htb, hc, ha, hb'⟩ := h
    have hla := Expr.level_of_not_ternary hta
    have hlb := Expr.level_of_not_ternary htb
    have hcond : Reads (if c.level ≤ tertIf.info.priority then parens c.tokens else c.tokens)
        stack (prio tertIf) c.toPostfix :=
      reads_operand (ihc hc) _ _ fun hn =>
        ⟨hb.mono (Nat.le_of_not_le hn), Nat.le_of_not_le hn⟩
    have hthen : Reads a.tokens (tertIf :: stack) (prio tertElse) a.toPostfix :=
      (iha ha _ (blocked_of_lt (Nat.lt_of_lt_of_le (by decide) hla) _)).mono
        (Nat.le_trans (by decide) hla)
    have helse : Reads b.tokens (tertElse :: tertIf :: stack) (prio tertIf) b.toPostfix :=
      (ihb hb' _ (blocked_of_lt (Nat.lt_of_lt_of_le (by decide) hlb) _)).mono
        (Nat.le_trans (by decide) hlb)
    -- the `:` is an operator between the two branches, on the stack of the `?`
    have hbranches := Reads.binary (show Ordinary tertElse by decide)
      (blocked_of_lt (by decide) _) hthen
      (by decide) helse
    have hall := Reads.binary (show Ordinary tertIf by decide) hb hcond (Nat.le_refl _) hbranches
    simpa [Expr.tokens, Expr.toPostfix, Expr.level] using hall

end OmegaRed.DebugTools
