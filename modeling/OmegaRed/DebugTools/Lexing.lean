import OmegaRed.DebugTools.Tree

/-! The texts of a tree, and what the lexer makes of them: the tree's tokens. -/

namespace OmegaRed.DebugTools

open Lib.OperatorStack ExpressionOpcodeType InitState

def Token.text : Token → List Char
  | .num n => '0' :: 'x' :: Nat.toDigits 16 n.toNat
  | .op t => t.info.name

/-- The tree in infix form, without blanks. -/
def Expr.print (e : Expr) : List Char := e.tokens.flatMap Token.text

/-- The text is that of the tokens, with blanks anywhere between them. -/
inductive Spells : List Char → List Token → Prop
  | nil : Spells [] []
  | blank {c s ts} : c = ' ' ∨ c = '\t' → Spells s ts → Spells (c :: s) ts
  | token {t s ts} : Spells s ts → Spells (t.text ++ s) (t :: ts)

theorem spells_flatMap (ts : List Token) : Spells (ts.flatMap Token.text) ts := by
  induction ts with
  | nil => exact .nil
  | cons t ts ih => exact .token ih

theorem spells_print (e : Expr) : Spells e.print e.tokens := spells_flatMap e.tokens

/-! ### Constants -/

theorem parseHex_append (l : List Char) (d : Nat) (hd : d < 16) :
    parseHex (l ++ [Nat.digitChar d]) =
      (parseHex l).map fun val : UInt64 => (val <<< 4) + .ofNat d := by
  rw [parseHex, List.foldlM_append]
  change (parseHex l >>= _) = _
  cases parseHex l with
  | none => rfl
  | some val =>
    simp only [Option.bind_eq_bind, Option.bind_some, List.foldlM_cons, List.foldlM_nil,
      Option.map_some]
    interval_cases d <;> rfl

theorem parseHex_toDigits (n : Nat) (h : n < 2 ^ 64) :
    parseHex (Nat.toDigits 16 n) = some (.ofNat n) := by
  induction n using Nat.strong_induction_on with
  | _ n ih =>
  by_cases hlt : n < 16
  · rw [Nat.toDigits_of_lt_base hlt, ← List.nil_append [_], parseHex_append _ _ hlt]
    simp [parseHex]
  · have hdiv : n / 16 < n := by omega
    rw [Nat.toDigits_of_base_le (by decide) (by omega), parseHex_append _ _ (by omega),
      ih _ hdiv (by omega), Option.map_some]
    congr 1
    apply UInt64.toNat.inj
    simp [Nat.shiftLeft_eq]
    omega

theorem isAlphaNum_digitChar {d : Nat} (h : d < 16) : isAlphaNum (Nat.digitChar d) = true := by
  interval_cases d <;> rfl

theorem isAlphaNum_toDigits (n : Nat) : ∀ c ∈ Nat.toDigits 16 n, isAlphaNum c = true := by
  induction n using Nat.strong_induction_on with
  | _ n ih =>
  by_cases hlt : n < 16
  · rw [Nat.toDigits_of_lt_base hlt]
    intro c hc
    rw [List.mem_singleton.mp hc]
    exact isAlphaNum_digitChar hlt
  · rw [Nat.toDigits_of_base_le (by decide) (by omega)]
    intro c hc
    rcases List.mem_append.mp hc with hc | hc
    · exact ih _ (by omega) c hc
    · rw [List.mem_singleton.mp hc]
      exact isAlphaNum_digitChar (by omega)

theorem parseNumber_num (n : UInt64) : parseNumber (Token.num n).text 16 = some n := by
  rw [parseNumber, if_pos ⟨rfl, rfl⟩]
  change parseHex (Nat.toDigits 16 n.toNat) = some n
  rw [parseHex_toDigits n.toNat n.toNat_lt, UInt64.ofNat_toNat]

theorem isFloat_num (n : UInt64) : isFloat (Token.num n).text = false := rfl

/-! ### Operators -/

/-- What a token does where an operand is expected (`true`) or an operator (`false`): the next
expectation, or `none` for a token that does not stand there. -/
def Token.next : Bool → Token → Option Bool
  | true, .num _ => some false
  | true, .op .bracketL => some true
  | true, .op .signPlus => some true
  | true, .op .signMinus => some true
  | true, .op .bitNot => some true
  | true, .op .logNot => some true
  | false, .op .bracketR => some false
  | false, .op .tertIf => some true
  | false, .op .tertElse => some true
  | false, .op t => if t.info.args = 2 ∧ t ≠ memSize then some true else .none
  | _, _ => .none

/-- The characters that an operator before them could go on with. -/
def merges (c : Char) : Bool := c == '=' || c == '<' || c == '>' || c == '&' || c == '|'

/-- The lexer expects an operand. -/
def wantsOperand (lastOpcode : ExpressionOpcodeType) : Bool :=
  !(lastOpcode == number || lastOpcode == bracketR)

/-- An operator is written with one character or with two, the second of them a merging one. -/
theorem name_cases {u : ExpressionOpcodeType} (hu : u ∈ ExpressionOpcodeType.all.take 29) :
    (∃ a, u.info.name = [a]) ∨ ∃ a b, u.info.name = [a, b] ∧ merges b = true ∧ a ≠ ')' := by
  cases u with
  | number => exact absurd hu (by decide)
  | mem => exact absurd hu (by decide)
  | none => exact absurd hu (by decide)
  | shl | shr | greaterEqual | lowerEqual | equal | notEqual | logAnd | logOr =>
    exact .inr ⟨_, _, rfl, by decide, by decide⟩
  | _ => exact .inl ⟨_, rfl⟩

theorem isPrefixOf_append {u : ExpressionOpcodeType} (hu : u ∈ ExpressionOpcodeType.all.take 29)
    {x : Char} {xs s : List Char}
    (hs : x = ')' ∨ ∀ c, s.head? = some c → merges c = false) :
    u.info.name.isPrefixOf (x :: xs ++ s) = u.info.name.isPrefixOf (x :: xs) := by
  rcases name_cases hu with ⟨a, ha⟩ | ⟨a, b, hab, hb, hne⟩
  · simp [ha, List.isPrefixOf]
  · rw [hab]
    cases xs with
    | cons y ys => simp [List.isPrefixOf]
    | nil =>
      cases s with
      | nil => rfl
      | cons c s =>
        simp only [List.cons_append, List.nil_append, List.isPrefixOf, Bool.and_true, Bool.and_false,
          Bool.and_eq_false_iff, beq_eq_false_iff_ne]
        rcases hs with rfl | hs
        · exact .inl hne
        · refine .inr fun hbc => ?_
          rw [hbc, hs c rfl] at hb
          contradiction

theorem getExpressionOpcode_append {x : Char} {xs s : List Char} (last : ExpressionOpcodeType)
    (hs : x = ')' ∨ ∀ c, s.head? = some c → merges c = false) :
    getExpressionOpcode (x :: xs ++ s) last = getExpressionOpcode (x :: xs) last := by
  refine List.foldl_ext _ _ _ fun result u hu => ?_
  rw [isPrefixOf_append hu hs]

theorem getExpressionOpcode_congr (str : List Char) {last last' : ExpressionOpcodeType}
    (h : wantsOperand last = wantsOperand last') :
    getExpressionOpcode str last = getExpressionOpcode str last' := by
  have hiff : (last = number ∨ last = bracketR) ↔ (last' = number ∨ last' = bracketR) := by
    have hor := Bool.not_inj h
    rw [Bool.eq_iff_iff] at hor
    simpa using hor
  refine List.foldl_ext _ _ _ fun result u _ => ?_
  simp only [hiff]

theorem getExpressionOpcode_name {b b' : Bool} {t : ExpressionOpcodeType}
    (h : (Token.op t).next b = some b') {last : ExpressionOpcodeType}
    (hlast : wantsOperand last = b) : getExpressionOpcode t.info.name last = (t, t.info.len) := by
  cases b with
  | true =>
    rw [getExpressionOpcode_congr _ (show wantsOperand last = wantsOperand none from hlast)]
    cases t <;> first | contradiction | decide +kernel
  | false =>
    rw [getExpressionOpcode_congr _ (show wantsOperand last = wantsOperand number from hlast)]
    cases t <;> first | contradiction | decide +kernel

/-! ### Whole texts -/

/-- The tokens stand where they can, and end behind an operand. -/
def Fits : Bool → List Token → Prop
  | b, [] => b = false
  | b, t :: ts => ∃ b', t.next b = some b' ∧ Fits b' ts

theorem UnaryOp.next (op : UnaryOp) : (Token.op op.opcode).next true = some true := by
  cases op <;> rfl

theorem BinaryOp.next (op : BinaryOp) : (Token.op op.opcode).next false = some true := by
  cases op <;> rfl

theorem fits_parens {ts : List Token} (h : ∀ us, Fits false us → Fits true (ts ++ us))
    {us : List Token} (hu : Fits false us) : Fits true (parens ts ++ us) := by
  have hclose : Fits false (.op bracketR :: us) := ⟨false, rfl, hu⟩
  have hinner := h _ hclose
  rw [parens, List.cons_append, List.cons_append, List.append_assoc]
  exact ⟨true, rfl, hinner⟩

theorem fits_tokens (e : Expr) {us : List Token} (hu : Fits false us) :
    Fits true (e.tokens ++ us) := by
  have hwrap : ∀ (e : Expr) (c : Prop) [Decidable c],
      (∀ us, Fits false us → Fits true (e.tokens ++ us)) → ∀ us, Fits false us →
        Fits true ((if c then parens e.tokens else e.tokens) ++ us) := by
    intro e c _ ih us hu
    split
    · exact fits_parens ih hu
    · exact ih us hu
  induction e generalizing us with
  | const n => exact ⟨false, rfl, hu⟩
  | unary op e ih => exact ⟨true, op.next, hwrap e _ (fun _ => ih) _ hu⟩
  | binary op a b iha ihb =>
    rw [Expr.tokens, List.append_assoc]
    exact hwrap a _ (fun _ => iha) _ ⟨true, op.next, hwrap b _ (fun _ => ihb) _ hu⟩
  | ternary c a b ihc iha ihb =>
    rw [Expr.tokens, List.append_assoc, List.append_assoc, List.cons_append]
    exact hwrap c _ (fun _ => ihc) _ ⟨true, rfl, iha ⟨true, rfl, ihb hu⟩⟩

theorem next_head {t : Token} {b b' : Bool} (h : t.next b = some b') {c : Char}
    (hc : t.text.head? = some c) :
    (b = true → merges c = false) ∧ (b = false → isAlphaNum c = false) := by
  cases b with
  | true =>
    refine ⟨fun _ => ?_, fun hb => absurd hb (by decide)⟩
    cases t with
    | num n =>
      cases hc
      rfl
    | op t => cases t <;> first | contradiction | (cases hc; rfl)
  | false =>
    refine ⟨fun hb => absurd hb (by decide), fun _ => ?_⟩
    cases t with
    | num n => contradiction
    | op t => cases t <;> first | contradiction | (cases hc; rfl)

theorem text_cons {t : Token} {b b' : Bool} (h : t.next b = some b') :
    ∃ x xs, t.text = x :: xs := by
  cases t with
  | num n => exact ⟨_, _, rfl⟩
  | op t => cases t <;> first | exact ⟨_, _, rfl⟩ | (cases b <;> contradiction)

theorem spells_head {s : List Char} {ts : List Token} (h : Spells s ts) {b : Bool}
    (hfits : Fits b ts) {c : Char} (hc : s.head? = some c) :
    (b = true → merges c = false) ∧ (b = false → isAlphaNum c = false) := by
  cases h with
  | nil => simp at hc
  | blank hblank _ =>
    rw [List.head?_cons, Option.some.injEq] at hc
    subst hc
    rcases hblank with rfl | rfl <;> exact ⟨fun _ => rfl, fun _ => rfl⟩
  | @token t s ts hs =>
    obtain ⟨b', hnext, -⟩ := hfits
    obtain ⟨x, xs, htext⟩ := text_cons hnext
    refine next_head hnext ?_
    rw [htext, List.cons_append, List.head?_cons] at hc
    rw [htext, List.head?_cons, hc]

theorem feed_rest (r s : List Char) (last : ExpressionOpcodeType)
    (stack : List ExpressionOpcodeType) (dest : PostfixExpression) (t : Token) :
    feed ⟨r, last, stack, dest⟩ t =
      (feed ⟨s, last, stack, dest⟩ t).map fun st => { st with rest := r } := by
  cases t with
  | num n => rfl
  | op t =>
    cases t with
    | bracketR =>
      simp only [feed, feedOp]
      cases popToFence (· == bracketL) stack <;> rfl
    | memR =>
      simp only [feed, feedOp]
      cases popToFence (· == memL) stack <;> rfl
    | _ => rfl

theorem feed_wants {b b' : Bool} {t : Token} (h : t.next b = some b') {s st : InitState}
    (hfeed : feed s t = .ok st) : wantsOperand st.lastOpcode = b' ∧ st.rest = s.rest := by
  cases t with
  | num n =>
    cases hfeed
    cases b <;> cases h
    exact ⟨rfl, rfl⟩
  | op t =>
    cases t with
    | bracketR =>
      simp only [feed, feedOp] at hfeed
      split at hfeed
      · contradiction
      · cases hfeed
        cases b <;> cases h
        exact ⟨rfl, rfl⟩
    | memR => cases b <;> contradiction
    | _ =>
      cases hfeed
      cases b <;> first | contradiction | (cases h; exact ⟨rfl, rfl⟩)

theorem name_head {b b' : Bool} {t : ExpressionOpcodeType}
    (h : (Token.op t).next b = some b') {x : Char} {xs : List Char} (htext : t.info.name = x :: xs) :
    ¬(tolower x = ' ' ∨ tolower x = '\t') ∧ ¬('0' ≤ tolower x ∧ tolower x ≤ '9') ∧
      ¬(('a' ≤ tolower x ∧ tolower x ≤ 'z') ∨ tolower x = '@') ∧ (b' = false → x = ')') := by
  cases t <;> first
    | (cases b <;> contradiction)
    | (cases htext; cases b <;> first | contradiction | (cases h; decide))

theorem len_eq_length {b b' : Bool} {t : ExpressionOpcodeType}
    (h : (Token.op t).next b = some b') : t.info.len = t.info.name.length ∧ t ≠ .none := by
  cases t <;> first
    | exact ⟨rfl, by decide⟩
    | (cases b <;> contradiction)

variable (funcs : IExpressionFunctions) (float : FloatOps)

theorem initStep_num (n : UInt64) {s : List Char}
    (hs : ∀ c, s.head? = some c → isAlphaNum c = false) (last : ExpressionOpcodeType)
    (stack : List ExpressionOpcodeType) (dest : PostfixExpression) :
    initStep funcs float ⟨(Token.num n).text ++ s, last, stack, dest⟩ '0' =
      feed ⟨s, last, stack, dest⟩ (.num n) := by
  have hall : ∀ c ∈ (Token.num n).text, isAlphaNum c = true := by
    intro c hc
    rcases List.mem_cons.mp hc with rfl | hc
    · rfl
    · rcases List.mem_cons.mp hc with rfl | hc
      · rfl
      · exact isAlphaNum_toDigits _ c hc
  have htake : ((Token.num n).text ++ s).takeWhile isAlphaNum = (Token.num n).text := by
    rw [List.takeWhile_append_of_pos hall]
    cases s with
    | nil => simp
    | cons c s => simp [hs c rfl]
  have hdrop : ((Token.num n).text ++ s).dropWhile isAlphaNum = s := by
    rw [List.dropWhile_append_of_pos hall]
    cases s with
    | nil => rfl
    | cons c s => simp [hs c rfl]
  unfold initStep
  simp only [htake, hdrop, isFloat_num, parseNumber_num]
  rfl

theorem initStep_op {b b' : Bool} {t : ExpressionOpcodeType}
    (h : (Token.op t).next b = some b') {last : ExpressionOpcodeType}
    (hlast : wantsOperand last = b) {x : Char} {xs s : List Char} (htext : t.info.name = x :: xs)
    (hs : b' = true → ∀ c, s.head? = some c → merges c = false)
    (stack : List ExpressionOpcodeType) (dest : PostfixExpression) :
    initStep funcs float ⟨t.info.name ++ s, last, stack, dest⟩ x =
      feed ⟨s, last, stack, dest⟩ (.op t) := by
  obtain ⟨hblank, hdigit, hletter, hclose⟩ := name_head h htext
  obtain ⟨hlen, hnone⟩ := len_eq_length h
  have hmerge : x = ')' ∨ ∀ c, s.head? = some c → merges c = false := by
    cases b' with
    | true => exact .inr (hs rfl)
    | false => exact .inl (hclose rfl)
  have hget : getExpressionOpcode (t.info.name ++ s) last = (t, t.info.len) := by
    rw [htext, getExpressionOpcode_append last hmerge, ← htext, getExpressionOpcode_name h hlast]
  have hdrop : (t.info.name ++ s).drop t.info.len = s := by rw [hlen, List.drop_left]
  unfold initStep
  simp only [if_neg hblank, if_neg hdigit, if_neg hletter, hget, if_neg hnone, hdrop]
  rfl

theorem initLoop_succ {text s : List Char} {c : Char} {cs : List Char} (htext : text = c :: cs)
    {st : Except String InitState} {fuel : Nat} {last : ExpressionOpcodeType}
    {stack : List ExpressionOpcodeType} {dest : PostfixExpression}
    (hstep : initStep funcs float ⟨text, last, stack, dest⟩ c = st)
    (hrest : ∀ t, st = .ok t → t.rest = s) :
    initLoop funcs float (fuel + 1) text.length ⟨text, last, stack, dest⟩ =
      st >>= fun t => initLoop funcs float fuel s.length t := by
  subst htext
  have hleft : ¬ (((c :: cs).length : Nat) : Int) ≤ 0 := by
    rw [List.length_cons]
    omega
  rw [initLoop]
  simp only [if_neg hleft, hstep]
  cases st with
  | error e => rfl
  | ok t =>
    change initLoop funcs float fuel _ t = initLoop funcs float fuel _ t
    congr 1
    rw [hrest t rfl]
    omega

theorem initLoop_spells {s : List Char} {ts : List Token} (h : Spells s ts) {b : Bool}
    (hfits : Fits b ts) {last : ExpressionOpcodeType} (hlast : wantsOperand last = b)
    {fuel : Nat} (hfuel : s.length ≤ fuel) (stack : List ExpressionOpcodeType)
    (dest : PostfixExpression) :
    initLoop funcs float fuel s.length ⟨s, last, stack, dest⟩ =
      ts.foldlM feed ⟨[], last, stack, dest⟩ := by
  induction h generalizing b last fuel stack dest with
  | nil => cases fuel <;> rfl
  | @blank c s ts hblank hs ih =>
    rw [List.length_cons] at hfuel
    obtain ⟨fuel, rfl⟩ : ∃ n, fuel = n + 1 := ⟨fuel - 1, by omega⟩
    have hstep : initStep funcs float ⟨c :: s, last, stack, dest⟩ c =
        .ok ⟨s, last, stack, dest⟩ := by
      rcases hblank with rfl | rfl <;> rfl
    rw [initLoop_succ funcs float rfl hstep fun t ht => by cases ht; rfl]
    exact ih hfits hlast (by omega) stack dest
  | @token t s ts hs ih =>
    obtain ⟨b', hnext, hfits'⟩ := hfits
    obtain ⟨x, xs, htext⟩ := text_cons hnext
    have hhead := fun c => spells_head hs hfits' (c := c)
    have hlen : (t.text ++ s).length = xs.length + 1 + s.length := by
      rw [htext, List.length_append, List.length_cons]
    obtain ⟨fuel, rfl⟩ : ∃ n, fuel = n + 1 := ⟨fuel - 1, by omega⟩
    have hstep : initStep funcs float ⟨t.text ++ s, last, stack, dest⟩ x =
        feed ⟨s, last, stack, dest⟩ t := by
      cases t with
      | num n =>
        have hb' : b' = false := by
          cases b with
          | true => exact (Option.some.inj hnext).symm
          | false => contradiction
        cases htext
        exact initStep_num funcs float n (fun c hc => (hhead c hc).2 hb') last stack dest
      | op t =>
        exact initStep_op funcs float hnext hlast htext (fun hb' c hc => (hhead c hc).1 hb')
          stack dest
    rw [initLoop_succ funcs float (by rw [htext, List.cons_append]) hstep fun st hst =>
      (feed_wants hnext hst).2, feed_rest s [], List.foldlM_cons]
    cases hfeed : feed ⟨[], last, stack, dest⟩ t with
    | error e => rfl
    | ok st =>
      obtain ⟨hwants, hrest⟩ := feed_wants hnext hfeed
      have hst : st = ⟨[], st.lastOpcode, st.opcodeStack, st.dest⟩ := by
        rw [← show st.rest = [] from hrest]
      rw [hst]
      exact ih hfits' hwants (by omega) st.opcodeStack st.dest

theorem initPostfixExpression_spells {e : Expr} (h : e.Plain) {text : List Char}
    (hs : Spells text e.tokens) (hlen : text.length < 2 ^ 31) :
    initPostfixExpression funcs float text = .ok e.toPostfix := by
  have hfits : Fits true e.tokens := by
    have hfits := fits_tokens e (show Fits false [] from rfl)
    rwa [List.append_nil] at hfits
  obtain ⟨last, pend, done, hfeed, hp, hout⟩ := reads_tokens e h [] trivial [] none []
  have hfeed := hfeed []
  rw [List.append_nil, List.append_nil, List.nil_append] at hfeed
  rw [initPostfixExpression, CDVD.toInt32_of_lt hlen,
    initLoop_spells funcs float hs hfits rfl (Nat.le_succ _), hfeed]
  simp only [List.foldlM_nil, bind, pure, Except.bind, Except.pure,
    popToFence_of_none (pending_not_bracketL hp), hout]

/-- An emulator without symbols and memory, on a host without floating point. -/
def noFunctions : IExpressionFunctions where
  parseReference _ := .none
  parseSymbol _ := .none
  getReferenceValue _ := 0
  getReferenceType _ := .uint
  getMemoryValue _ _ := .error "Invalid address"

def noFloat : FloatOps where
  atof _ := 0
  neg _ := 0
  mul _ _ := 0
  div _ _ := 0
  add _ _ := 0
  sub _ _ := 0
  le _ _ := false
  lt _ _ := false

/-- `(2 - -1) * 3 ? 4 : 5` -/
def sample : Expr :=
  .ternary (.binary .mul (.binary .sub (.const 2) (.unary .minus (.const 1))) (.const 3))
    (.const 4) (.const 5)

end OmegaRed.DebugTools
