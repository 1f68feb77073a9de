import OmegaRed.DebugTools.Checked
import OmegaRed.DebugTools.Lexing

/-! Which texts the expression parser handles safely. -/

namespace OmegaRed.DebugTools

open Lib.OperatorStack ExpressionOpcodeType InitState

/-! ## Brackets -/

/-- The open brackets behind `c`, the innermost first. -/
def nest (opened : List Char) (c : Char) : Option (List Char) :=
  if c = '(' ∨ c = '[' then some (c :: opened)
  else if c = ')' then if opened.head? = some '(' then some opened.tail else none
  else if c = ']' then if opened.head? = some '[' then some opened.tail else none
  else some opened

/-- Every bracket of the text is closed, and in the order of the nesting. -/
def Nested (text : List Char) : Prop := text.foldlM nest [] = some []

instance (text : List Char) : Decidable (Nested text) := inferInstanceAs (Decidable (_ = _))

/-- The open brackets behind `c`, when a closing bracket takes the nearest of its kind and all that
have been opened after it. -/
def takeOver (opened : List Char) (c : Char) : Option (List Char) :=
  if c = '(' ∨ c = '[' then some (c :: opened)
  else if c = ')' then (popToFence (· == '(') opened).map (·.2)
  else if c = ']' then (popToFence (· == '[') opened).map (·.2)
  else some opened

/-- No bracket is closed that has not been opened, and no parenthesis stays open. -/
def Closes (text : List Char) : Prop :=
  ∃ opened, text.foldlM takeOver [] = some opened ∧ '(' ∉ opened

def bracket : ExpressionOpcodeType → Option Char
  | bracketL => some '('
  | memL => some '['
  | _ => .none

/-- The brackets on the operator stack. -/
def brackets (stack : List ExpressionOpcodeType) : List Char := stack.filterMap bracket

theorem brackets_popPending (p : Nat) (stack : List ExpressionOpcodeType) :
    brackets (popPending (fun t => t.info.priority) isOpening p stack).2 = brackets stack := by
  refine filterMap_popPending (fun t ht => ?_) p stack
  cases t <;> first | rfl | contradiction

theorem takeOver_bracketR (stack : List ExpressionOpcodeType) :
    takeOver (brackets stack) ')' =
      (popToFence (· == bracketL) stack).map fun popped => brackets popped.2 :=
  popToFence_filterMap (fun t => by cases t <;> rfl) stack

theorem takeOver_memR (stack : List ExpressionOpcodeType) :
    takeOver (brackets stack) ']' =
      (popToFence (· == memL) stack).map fun popped => brackets popped.2 :=
  popToFence_filterMap (fun t => by cases t <;> rfl) stack

theorem takeOver_of_not_bracket {c : Char} (h : c ∉ ['(', '[', ')', ']']) (opened : List Char) :
    takeOver opened c = some opened := by
  simp only [List.mem_cons, List.not_mem_nil, or_false, not_or] at h
  obtain ⟨h1, h2, h3, h4⟩ := h
  simp [takeOver, h1, h2, h3, h4]

theorem takeOver_token {token : List Char} (h : ∀ c ∈ token, isAlphaNum c = true)
    (opened : List Char) : token.foldlM takeOver opened = some opened := by
  induction token with
  | nil => rfl
  | cons c token ih =>
    obtain ⟨hc, htoken⟩ := List.forall_mem_cons.mp h
    have hbracket : c ∉ ['(', '[', ')', ']'] := by
      intro hmem
      simp only [List.mem_cons, List.not_mem_nil, or_false] at hmem
      rcases hmem with rfl | rfl | rfl | rfl <;> contradiction
    rw [List.foldlM_cons, takeOver_of_not_bracket hbracket]
    exact ih htoken

/-! ## Reading -/

variable {funcs : IExpressionFunctions} {float : FloatOps}

/-- What a turn of `initPostfixExpression` goes on with, whatever is on the stack: the text behind
what it reads there, and the kind of that. -/
def readTurn (funcs : IExpressionFunctions) (lastOpcode : ExpressionOpcodeType) :
    List Char → Option (List Char × ExpressionOpcodeType)
  | [] => .none
  | c :: rest =>
    let first := tolower c
    let subStr := (c :: rest).takeWhile isAlphaNum
    let behind := (c :: rest).dropWhile isAlphaNum
    if first = ' ' ∨ first = '\t' then some (rest, lastOpcode)
    else if '0' ≤ first ∧ first ≤ '9' then
      if isFloat subStr ∨ (parseNumber subStr 16).isSome then some (behind, number) else .none
    else if ('a' ≤ first ∧ first ≤ 'z') ∨ first = '@' then
      if (funcs.parseReference subStr).isSome ∨ (funcs.parseSymbol subStr).isSome then
        some (behind, number)
      else .none
    else
      let (type, len) := getExpressionOpcode (c :: rest) lastOpcode
      if type = .none then .none
      else some ((c :: rest).drop len, if type = memR then number else type)

theorem len_eq_length_name : ∀ t ∈ ExpressionOpcodeType.all.take 29,
    t.info.len = t.info.name.length := by decide

theorem name_ne_nil : ∀ t ∈ ExpressionOpcodeType.all.take 29, t.info.name ≠ [] := by decide

/-- What is found is an operator that can be written, and stands at the start of the text. -/
theorem getExpressionOpcode_spec {str : List Char} {last t : ExpressionOpcodeType} {len : Nat}
    (h : getExpressionOpcode str last = (t, len)) (ht : t ≠ .none) :
    t ∈ ExpressionOpcodeType.all.take 29 ∧ len = t.info.name.length ∧ t.info.name <+: str := by
  let Found (result : ExpressionOpcodeType × Nat) : Prop := result.1 ≠ .none →
    result.1 ∈ ExpressionOpcodeType.all.take 29 ∧ result.2 = result.1.info.name.length ∧
      result.1.info.name <+: str
  have hfound : Found (getExpressionOpcode str last) := by
    refine List.foldlRecOn _ _ (motive := Found) (fun hne => absurd rfl hne) ?_
    intro result hresult u hu
    split
    · exact hresult
    · split
      next hpre =>
        exact fun _ => ⟨hu, len_eq_length_name u hu, List.isPrefixOf_iff_prefix.mp hpre.2⟩
      · exact hresult
  rw [h] at hfound
  exact hfound ht

/-- What an operator's characters do to the open brackets, it does to those on the stack. -/
theorem feedOp_brackets {t : ExpressionOpcodeType} (ht : t ∈ ExpressionOpcodeType.all.take 29)
    (s : InitState) :
    (t.info.name.foldlM takeOver (brackets s.opcodeStack) = .none ∧ ∃ e, s.feedOp t = .error e) ∨
      ∃ u, s.feedOp t = .ok u ∧ u.rest = s.rest ∧
        u.lastOpcode = (if t = memR then number else t) ∧
        t.info.name.foldlM takeOver (brackets s.opcodeStack) = some (brackets u.opcodeStack) := by
  cases t with
  | number | mem | none => exact absurd ht (by decide)
  | bracketL | memL => exact .inr ⟨_, rfl, rfl, rfl, rfl⟩
  | bracketR =>
    have hover := takeOver_bracketR s.opcodeStack
    simp only [feedOp, info, List.foldlM_cons, List.foldlM_nil, hover]
    cases popToFence (· == bracketL) s.opcodeStack with
    | none => exact .inl ⟨rfl, _, rfl⟩
    | some popped => exact .inr ⟨_, rfl, rfl, rfl, rfl⟩
  | memR =>
    have hover := takeOver_memR s.opcodeStack
    simp only [feedOp, info, List.foldlM_cons, List.foldlM_nil, hover]
    cases popToFence (· == memL) s.opcodeStack with
    | none => exact .inl ⟨rfl, _, rfl⟩
    | some popped => exact .inr ⟨_, rfl, rfl, rfl, rfl⟩
  | _ =>
    refine .inr ⟨_, rfl, rfl, rfl, ?_⟩
    exact congrArg some (brackets_popPending _ s.opcodeStack).symm

theorem startsToken_iff {c : Char} : startsToken c = true ↔
    ('0' ≤ tolower c ∧ tolower c ≤ '9') ∨
      ('a' ≤ tolower c ∧ tolower c ≤ 'z') ∨ tolower c = '@' := by
  simp [startsToken, or_assoc]

theorem isAlphaNum_of_startsToken {c : Char} (h : startsToken c = true) : isAlphaNum c = true := by
  rw [startsToken_iff, tolower, Char.toLower] at h
  split at h
  next hupper =>
    have hletter : 'A' ≤ c ∧ c ≤ 'Z' := hupper
    simp [isAlphaNum, hletter]
  · simp only [isAlphaNum, Bool.or_eq_true, Bool.and_eq_true, decide_eq_true_eq, beq_iff_eq]
    tauto

theorem token_spec {c : Char} (h : isAlphaNum c = true) (cs : List Char) (opened : List Char) :
    (c :: cs).takeWhile isAlphaNum ≠ [] ∧
      ((c :: cs).takeWhile isAlphaNum).foldlM takeOver opened = some opened := by
  refine ⟨?_, takeOver_token (fun d hd => List.mem_takeWhile_imp hd) opened⟩
  rw [List.takeWhile_cons_of_pos h]
  exact List.cons_ne_nil _ _

theorem initStep_of_readTurn_none (float : FloatOps) {s : InitState} {c : Char} {cs : List Char}
    (hrest : s.rest = c :: cs) (h : readTurn funcs s.lastOpcode s.rest = .none) :
    ∃ e, initStep funcs float s c = .error e := by
  obtain ⟨rest, last, stack, dest⟩ := s
  cases hrest
  rw [readTurn] at h
  rw [initStep]
  dsimp only at h ⊢
  split
  next hblank =>
    rw [if_pos hblank] at h
    cases h
  next hblank =>
    rw [if_neg hblank] at h
    split
    next hdigit =>
      rw [if_pos hdigit] at h
      split
      next hfloat =>
        rw [if_pos (.inl hfloat)] at h
        cases h
      · cases hnum : parseNumber ((c :: cs).takeWhile isAlphaNum) 16 with
        | none => exact ⟨_, rfl⟩
        | some value =>
          rw [hnum, if_pos (.inr rfl)] at h
          cases h
    next hdigit =>
      rw [if_neg hdigit] at h
      split
      next hletter =>
        rw [if_pos hletter] at h
        cases href : funcs.parseReference ((c :: cs).takeWhile isAlphaNum) with
        | some value =>
          rw [href, if_pos (.inl rfl)] at h
          cases h
        | none =>
          cases hsym : funcs.parseSymbol ((c :: cs).takeWhile isAlphaNum) with
          | some value =>
            rw [hsym, if_pos (.inr rfl)] at h
            cases h
          | none => exact ⟨_, rfl⟩
      next hletter =>
        rw [if_neg hletter] at h
        split
        · exact ⟨_, rfl⟩
        next hnone =>
          rw [if_neg hnone] at h
          cases h

/-- A turn fails or goes on as it reads, with the brackets that it has read on the stack. -/
theorem initStep_of_readTurn (float : FloatOps) {s : InitState} {c : Char} {cs rest' : List Char}
    {last' : ExpressionOpcodeType} (hrest : s.rest = c :: cs)
    (h : readTurn funcs s.lastOpcode s.rest = some (rest', last')) :
    ∃ piece, piece ≠ [] ∧ s.rest = piece ++ rest' ∧
      ((piece.foldlM takeOver (brackets s.opcodeStack) = .none ∧
          ∃ e, initStep funcs float s c = .error e) ∨
        ∃ t, initStep funcs float s c = .ok t ∧ t.rest = rest' ∧ t.lastOpcode = last' ∧
          piece.foldlM takeOver (brackets s.opcodeStack) = some (brackets t.opcodeStack)) := by
  obtain ⟨rest, last, stack, dest⟩ := s
  cases hrest
  rw [readTurn] at h
  rw [initStep]
  dsimp only at h ⊢
  have hsplit := (List.takeWhile_append_dropWhile (p := isAlphaNum) (l := c :: cs)).symm
  split
  next hblank =>
    rw [if_pos hblank] at h
    cases h
    refine ⟨[c], List.cons_ne_nil _ _, rfl, .inr ⟨_, rfl, rfl, rfl, ?_⟩⟩
    have hbracket : c ∉ ['(', '[', ')', ']'] := by
      intro hmem
      simp only [List.mem_cons, List.not_mem_nil, or_false] at hmem
      rcases hmem with rfl | rfl | rfl | rfl <;> exact absurd hblank (by decide)
    rw [List.foldlM_cons, takeOver_of_not_bracket hbracket]
    rfl
  next hblank =>
    rw [if_neg hblank] at h
    split
    next hdigit =>
      rw [if_pos hdigit] at h
      obtain ⟨hne, hover⟩ := token_spec (isAlphaNum_of_startsToken
        (startsToken_iff.mpr (.inl hdigit))) cs (brackets stack)
      split at h
      next hsome =>
        cases h
        refine ⟨_, hne, hsplit, .inr ?_⟩
        split
        · exact ⟨_, rfl, rfl, rfl, hover⟩
        next hfloat =>
          obtain ⟨value, hvalue⟩ := Option.isSome_iff_exists.mp (hsome.resolve_left hfloat)
          rw [hvalue]
          exact ⟨_, rfl, rfl, rfl, hover⟩
      · cases h
    next hdigit =>
      rw [if_neg hdigit] at h
      split
      next hletter =>
        rw [if_pos hletter] at h
        obtain ⟨hne, hover⟩ := token_spec (isAlphaNum_of_startsToken
          (startsToken_iff.mpr (.inr hletter))) cs (brackets stack)
        split at h
        next hsome =>
          cases h
          refine ⟨_, hne, hsplit, .inr ?_⟩
          cases href : funcs.parseReference ((c :: cs).takeWhile isAlphaNum) with
          | some value => exact ⟨_, rfl, rfl, rfl, hover⟩
          | none =>
            rw [href] at hsome
            obtain ⟨value, hvalue⟩ :=
              Option.isSome_iff_exists.mp (hsome.resolve_left Bool.false_ne_true)
            rw [hvalue]
            exact ⟨_, rfl, rfl, rfl, hover⟩
        · cases h
      next hletter =>
        rw [if_neg hletter] at h
        cases hop : getExpressionOpcode (c :: cs) last with
        | mk t len =>
          rw [hop] at h
          dsimp only at h ⊢
          split
          next hnone =>
            rw [if_pos hnone] at h
            cases h
          next hnone =>
            rw [if_neg hnone] at h
            cases h
            obtain ⟨hwritten, hlen, behind, hbehind⟩ := getExpressionOpcode_spec hop hnone
            have hdrop : (c :: cs).drop len = behind := by
              rw [hlen, ← hbehind, List.drop_left]
            refine ⟨_, name_ne_nil t hwritten, by rw [hdrop]; exact hbehind.symm, ?_⟩
            exact feedOp_brackets hwritten ⟨(c :: cs).drop len, last, stack, dest⟩

/-- How far the text is read while it can be: what is behind, what is to come, and the kind of what
was read last. -/
inductive Reached (funcs : IExpressionFunctions) (text : List Char) :
    List Char → List Char → ExpressionOpcodeType → Prop
  | start : Reached funcs text [] text .none
  | turn {pre piece rest last last'} : Reached funcs text pre (piece ++ rest) last →
      (pre.length : Int) < CDVD.toInt32 text.length →
      readTurn funcs last (piece ++ rest) = some (rest, last') →
      Reached funcs text (pre ++ piece) rest last'

variable {text pre rest : List Char} {last : ExpressionOpcodeType}

/-- A token that does not fit the buffer starts here. -/
def Overlong (rest : List Char) : Prop :=
  (∃ c ∈ rest.head?, startsToken c = true) ∧ 256 ≤ (rest.takeWhile isAlphaNum).length

/-- The loop ends here. -/
def AtEnd (text pre rest : List Char) : Prop :=
  rest = [] ∨ ¬(pre.length : Int) < CDVD.toInt32 text.length

/-- A token that is read in a text whose brackets are in order so far fits the buffer. -/
def TokensFit (funcs : IExpressionFunctions) (text : List Char) : Prop :=
  ∀ pre rest last, Reached funcs text pre rest last →
    (pre.length : Int) < CDVD.toInt32 text.length → Overlong rest →
      pre.foldlM takeOver [] = .none

theorem copyToken_eq (subStr s : List Char) :
    copyToken subStr s =
      if (subStr ++ s.takeWhile isAlphaNum).length < 256 then
        .ok (subStr ++ s.takeWhile isAlphaNum, s.dropWhile isAlphaNum)
      else .error .tokenBuffer := by
  induction s generalizing subStr with
  | nil => simp [copyToken]
  | cons c s ih =>
    rw [copyToken]
    cases hc : isAlphaNum c with
    | true =>
      rw [ih, List.takeWhile_cons_of_pos hc, List.dropWhile_cons_of_pos hc, if_pos rfl,
        List.append_assoc, List.singleton_append]
      split
      · rfl
      next hfull => rw [if_neg (by rw [List.length_append]; omega)]
    | false =>
      have hneg : ¬isAlphaNum c = true := by simp [hc]
      rw [List.takeWhile_cons_of_neg hneg, List.dropWhile_cons_of_neg hneg, List.append_nil,
        if_neg Bool.false_ne_true]

theorem initStepChecked_of_overlong {s : InitState} {c : Char} {cs : List Char}
    (hrest : s.rest = c :: cs) (h : Overlong s.rest) :
    initStepChecked funcs float s c = .error .tokenBuffer := by
  obtain ⟨⟨d, hd, hstart⟩, hlong⟩ := h
  rw [hrest] at hd
  cases hd
  rw [initStepChecked, if_pos hstart, copyToken_eq, List.nil_append, if_neg (Nat.not_lt.mpr hlong)]
  rfl

theorem initStepChecked_of_not_overlong {s : InitState} {c : Char} {cs : List Char}
    (hrest : s.rest = c :: cs) (h : ¬Overlong s.rest) :
    initStepChecked funcs float s c = .ok (initStep funcs float s c) := by
  rw [initStepChecked]
  split
  next hstart =>
    have hshort : (s.rest.takeWhile isAlphaNum).length < 256 := by
      by_contra hlong
      exact h ⟨⟨c, by rw [hrest]; rfl, hstart⟩, Nat.not_lt.mp hlong⟩
    rw [copyToken_eq, List.nil_append, if_pos hshort]
    rfl
  · rfl

theorem takeOver_append (pre piece : List Char) :
    (pre ++ piece).foldlM takeOver [] =
      (pre.foldlM takeOver []).bind fun opened => piece.foldlM takeOver opened :=
  List.foldlM_append

/-- Where the loop stands when it has read `pre`. -/
structure At (pre rest : List Char) (last : ExpressionOpcodeType) (s : InitState) : Prop where
  rest : s.rest = rest
  last : s.lastOpcode = last
  opened : pre.foldlM takeOver [] = some (brackets s.opcodeStack)

theorem initLoopChecked_at_end {s : InitState} (h : At pre rest last s)
    (hend : AtEnd text pre rest) (fuel : Nat) :
    initLoopChecked funcs float (fuel + 1) (CDVD.toInt32 text.length - pre.length) s =
      .ok (.ok s) := by
  rw [initLoopChecked]
  cases hrest : s.rest with
  | nil => rfl
  | cons c cs =>
    have hlen := hend.resolve_left (by rw [← h.rest, hrest]; exact List.cons_ne_nil c cs)
    dsimp only
    rw [if_pos (by omega)]

theorem initLoopChecked_turn {s : InitState} (h : At pre rest last s) {c : Char} {cs : List Char}
    (hrest : rest = c :: cs) (hlen : (pre.length : Int) < CDVD.toInt32 text.length) (fuel : Nat) :
    initLoopChecked funcs float (fuel + 1) (CDVD.toInt32 text.length - pre.length) s =
      (initStepChecked funcs float s c).bind fun
        | .error e => .ok (.error e)
        | .ok t => initLoopChecked funcs float fuel
            (CDVD.toInt32 text.length - pre.length - (rest.length - t.rest.length)) t := by
  have hs := h.rest.trans hrest
  rw [initLoopChecked, hs]
  dsimp only
  rw [if_neg (by omega), ← hrest]
  rfl

/-- The turn fails at a closing bracket, or the loop stands behind what it has read. -/
theorem At.turn (float : FloatOps) {s : InitState} (h : At pre rest last s)
    (hlen : (pre.length : Int) < CDVD.toInt32 text.length) (hshort : ¬Overlong rest)
    {rest' : List Char} {last' : ExpressionOpcodeType}
    (hread : readTurn funcs last rest = some (rest', last')) (fuel : Nat) :
    ∃ piece, piece ≠ [] ∧ rest = piece ++ rest' ∧
      (((pre ++ piece).foldlM takeOver [] = .none ∧
          ∃ e, initLoopChecked funcs float (fuel + 1) (CDVD.toInt32 text.length - pre.length) s =
            .ok (.error e)) ∨
        ∃ t, At (pre ++ piece) rest' last' t ∧
          initLoopChecked funcs float (fuel + 1) (CDVD.toInt32 text.length - pre.length) s =
            initLoopChecked funcs float fuel
              (CDVD.toInt32 text.length - (pre ++ piece).length) t) := by
  cases hrest : rest with
  | nil =>
    rw [hrest] at hread
    cases hread
  | cons c cs =>
    have hs := h.rest.trans hrest
    obtain ⟨piece, hne, hpiece, hturn⟩ := initStep_of_readTurn float hs
      (by rw [h.rest, h.last]; exact hread)
    have hstep : initStepChecked funcs float s c = .ok (initStep funcs float s c) :=
      initStepChecked_of_not_overlong hs (by rw [h.rest]; exact hshort)
    rw [initLoopChecked_turn h hrest hlen, hstep]
    refine ⟨piece, hne, by rw [← hrest, ← h.rest, hpiece], ?_⟩
    rw [takeOver_append, h.opened]
    rcases hturn with ⟨hnone, e, he⟩ | ⟨t, ht, htrest, htlast, hover⟩
    · rw [he]
      exact .inl ⟨hnone, e, rfl⟩
    · rw [ht]
      refine .inr ⟨t, ⟨htrest, htlast, ?_⟩, ?_⟩
      · rw [takeOver_append, h.opened]
        exact hover
      · have hsplit : rest.length = piece.length + t.rest.length := by
          rw [← h.rest, hpiece, List.length_append, htrest]
        have hleft : CDVD.toInt32 text.length - pre.length - (rest.length - t.rest.length) =
            CDVD.toInt32 text.length - (pre ++ piece).length := by
          rw [List.length_append]
          omega
        rw [← hleft]
        rfl

theorem At.turn_none (float : FloatOps) {s : InitState} (h : At pre rest last s)
    (hlen : (pre.length : Int) < CDVD.toInt32 text.length) (hshort : ¬Overlong rest)
    (hne : rest ≠ []) (hread : readTurn funcs last rest = .none) (fuel : Nat) :
    ∃ e, initLoopChecked funcs float (fuel + 1) (CDVD.toInt32 text.length - pre.length) s =
      .ok (.error e) := by
  obtain ⟨c, cs, hrest⟩ := List.exists_cons_of_ne_nil hne
  have hs := h.rest.trans hrest
  obtain ⟨e, he⟩ := initStep_of_readTurn_none float hs
    (by rw [h.rest, h.last]; exact hread)
  have hstep : initStepChecked funcs float s c = .ok (initStep funcs float s c) :=
    initStepChecked_of_not_overlong hs (by rw [h.rest]; exact hshort)
  rw [initLoopChecked_turn h hrest hlen, hstep, he]
  exact ⟨e, rfl⟩

theorem initLoopChecked_overlong {s : InitState} (h : At pre rest last s)
    (hlen : (pre.length : Int) < CDVD.toInt32 text.length) (hlong : Overlong rest) (fuel : Nat) :
    initLoopChecked funcs float (fuel + 1) (CDVD.toInt32 text.length - pre.length) s =
      .error .tokenBuffer := by
  cases hrest : rest with
  | nil =>
    obtain ⟨⟨c, hc, -⟩, -⟩ := hlong
    rw [hrest] at hc
    cases hc
  | cons c cs =>
    rw [initLoopChecked_turn h hrest hlen,
      initStepChecked_of_overlong (h.rest.trans hrest) (by rw [h.rest]; exact hlong)]
    rfl

/-- The run of the loop from the start of the text. -/
def initRun (funcs : IExpressionFunctions) (float : FloatOps) (text : List Char) :
    Except Fault (Except String InitState) :=
  initLoopChecked funcs float (text.length + 1) (CDVD.toInt32 text.length) ⟨text, .none, [], []⟩

theorem At.start (text : List Char) : At [] text .none ⟨text, .none, [], []⟩ := ⟨rfl, rfl, rfl⟩

/-- A run without a fault comes to whatever is reached with its brackets in order. -/
theorem Reached.state {r : Except String InitState} (hrun : initRun funcs float text = .ok r)
    (h : Reached funcs text pre rest last) (hopened : pre.foldlM takeOver [] ≠ .none) :
    ∃ s fuel, At pre rest last s ∧ rest.length ≤ fuel ∧
      initRun funcs float text =
        initLoopChecked funcs float (fuel + 1) (CDVD.toInt32 text.length - pre.length) s := by
  induction h with
  | start => exact ⟨_, text.length, .start text, Nat.le_refl _, by simp [initRun]⟩
  | @turn pre piece rest last last' _ hlen hread ih =>
    have hbefore : pre.foldlM takeOver [] ≠ .none := by
      intro hnone
      rw [takeOver_append, hnone] at hopened
      exact hopened rfl
    obtain ⟨s, fuel, hat, hfuel, heq⟩ := ih hbefore
    have hshort : ¬Overlong (piece ++ rest) := by
      intro hlong
      rw [heq, initLoopChecked_overlong hat hlen hlong] at hrun
      cases hrun
    obtain ⟨piece', hne, hpiece, hturn⟩ := hat.turn float hlen hshort hread fuel
    obtain rfl := List.append_cancel_right hpiece
    rcases hturn with ⟨hnone, -⟩ | ⟨t, ht, hloop⟩
    · exact absurd hnone hopened
    · have hpos := List.length_pos_of_ne_nil hne
      rw [List.length_append] at hfuel
      obtain ⟨fuel, rfl⟩ : ∃ n, fuel = n + 1 := ⟨fuel - 1, by omega⟩
      exact ⟨t, fuel, ht, by omega, heq.trans hloop⟩

theorem initLoopChecked_ok (float : FloatOps) (hfit : TokensFit funcs text)
    (h : Reached funcs text pre rest last)
    {s : InitState} (hat : At pre rest last s) {fuel : Nat} (hfuel : rest.length ≤ fuel) :
    ∃ r, initLoopChecked funcs float (fuel + 1) (CDVD.toInt32 text.length - pre.length) s = .ok r ∧
      ∀ t, r = .ok t → ∃ pre' rest' last', Reached funcs text pre' rest' last' ∧
        AtEnd text pre' rest' ∧ At pre' rest' last' t := by
  induction fuel generalizing pre rest last s with
  | zero =>
    have hend : AtEnd text pre rest := .inl (List.length_eq_zero_iff.mp (Nat.le_zero.mp hfuel))
    exact ⟨_, initLoopChecked_at_end hat hend 0, fun t ht =>
      ⟨pre, rest, last, h, hend, by cases ht; exact hat⟩⟩
  | succ fuel ih =>
    by_cases hend : AtEnd text pre rest
    · exact ⟨_, initLoopChecked_at_end hat hend _, fun t ht =>
        ⟨pre, rest, last, h, hend, by cases ht; exact hat⟩⟩
    · obtain ⟨hne, hlen⟩ := not_or.mp hend
      have hlen := not_not.mp hlen
      have hshort : ¬Overlong rest := by
        intro hlong
        have hnone := hfit pre rest last h hlen hlong
        rw [hat.opened] at hnone
        cases hnone
      cases hread : readTurn funcs last rest with
      | none =>
        obtain ⟨e, he⟩ := hat.turn_none float hlen hshort hne hread (fuel + 1)
        exact ⟨_, he, fun t ht => by cases ht⟩
      | some next =>
        obtain ⟨rest', last'⟩ := next
        obtain ⟨piece, hpiece, rfl, hturn⟩ := hat.turn float hlen hshort hread (fuel + 1)
        rcases hturn with ⟨-, e, he⟩ | ⟨t, ht, hloop⟩
        · exact ⟨_, he, fun t ht => by cases ht⟩
        · have hpos := List.length_pos_of_ne_nil hpiece
          rw [List.length_append] at hfuel
          rw [hloop]
          exact ih (h.turn hlen hread) ht (by omega)

/-! ## Evaluating -/

/-- The vector ends in an operator that looks for another one behind it, and its evaluation comes
to it with the values that it takes. -/
def OverRead (funcs : IExpressionFunctions) (float : FloatOps) (exp : PostfixExpression)
    (useFloat : Bool) (valueStack : List UInt64) : Prop :=
  ∃ before pair stack, exp = before ++ [pair] ∧ pair.first = .op ∧
    (ofCode pair.second = memSize ∨ ofCode pair.second = tertElse) ∧
    postfixLoop funcs float before useFloat valueStack = .ok stack ∧
    (ofCode pair.second).info.args ≤ stack.length

/-- How many of the vector behind it the operator looks at. -/
def takes (pair : ExpressionPair) : Nat :=
  if pair.first = .op ∧ (ofCode pair.second = memSize ∨ ofCode pair.second = tertElse) then 1 else 0

variable {pair : ExpressionPair} {front : PostfixExpression} {useFloat : Bool}
  {valueStack : List UInt64}

theorem takes_eq_one : takes pair = 1 ↔
    pair.first = .op ∧ (ofCode pair.second = memSize ∨ ofCode pair.second = tertElse) := by
  rw [takes]
  split
  next h => exact iff_of_true rfl h
  next h => exact iff_of_false (by decide) h

theorem takes_le (pair : ExpressionPair) : takes pair ≤ 1 := by
  rw [takes]
  split <;> decide

theorem map_pair {α β γ : Type} (x : Except String α) (g : α → β) (rest : γ) :
    x.map (fun a => (rest, g a)) = (x.map g).map fun c => (rest, c) := by
  cases x <;> rfl

theorem exists_core (funcs : IExpressionFunctions) (float : FloatOps)
    (hfront : front.length = takes pair) (useFloat : Bool)
    (valueStack : List UInt64) :
    ∃ core : Except String (Bool × List UInt64), ∀ rest,
      postfixTurn funcs float pair (front ++ rest) useFloat valueStack =
        .ok (core.map fun c => (rest, c)) := by
  obtain ⟨first, second⟩ := pair
  cases first with
  | const | constFloat | ref =>
    obtain rfl := List.length_eq_zero_iff.mp hfront
    exact ⟨.ok _, fun _ => rfl⟩
  | op =>
    rw [takes] at hfront
    simp only [postfixTurn]
    generalize ofCode second = t at hfront ⊢
    by_cases hargs : valueStack.length < t.info.args
    · exact ⟨.error _, fun _ => by rw [if_pos hargs]; rfl⟩
    · simp only [if_neg hargs, popValues_eq (Nat.not_lt.mp hargs)]
      cases t with
      | memSize =>
        obtain ⟨next, rfl⟩ := List.length_eq_one_iff.mp hfront
        by_cases hmem : next.second ≠ mem.code
        · exact ⟨.error _, fun _ => if_pos hmem⟩
        · exact ⟨_, fun rest => (if_neg hmem).trans (congrArg Except.ok (map_pair _ _ rest))⟩
      | tertElse =>
        obtain ⟨next, rfl⟩ := List.length_eq_one_iff.mp hfront
        by_cases htert : next.second ≠ tertIf.code
        · exact ⟨.error _, fun _ => if_pos htert⟩
        · exact ⟨.ok _, fun _ => if_neg htert⟩
      | mem =>
        obtain rfl := List.length_eq_zero_iff.mp hfront
        exact ⟨_, fun rest => congrArg Except.ok (map_pair _ _ rest)⟩
      | _ =>
        obtain rfl := List.length_eq_zero_iff.mp hfront
        exact ⟨_, fun rest => congrArg Except.ok (map_pair _ _ rest)⟩

theorem postfixTurn_nil (h : takes pair = 1) (useFloat : Bool) (valueStack : List UInt64) :
    postfixTurn funcs float pair [] useFloat valueStack =
      if valueStack.length < (ofCode pair.second).info.args then .ok (.error "Not enough arguments")
      else .error .postfixVector := by
  obtain ⟨hop, ht⟩ := takes_eq_one.mp h
  simp only [postfixTurn, hop]
  split
  · rfl
  next hargs =>
    rw [popValues_eq (Nat.not_lt.mp hargs)]
    rcases ht with ht | ht <;> rw [ht]

theorem postfixLoop_singleton (h : takes pair = 1) (useFloat : Bool) (valueStack : List UInt64)
    (stack : List UInt64) : postfixLoop funcs float [pair] useFloat valueStack ≠ .ok stack := by
  obtain ⟨first, second⟩ := pair
  obtain ⟨rfl, ht⟩ := takes_eq_one.mp h
  rw [postfixLoop.eq_def]
  intro hok
  dsimp only at hok
  split at hok
  · cases hok
  · rcases ht with ht | ht <;> rw [ht] at hok <;> cases hok

theorem overRead_cons {core : Except String (Bool × List UInt64)}
    (hfront : front.length = takes pair)
    (hcore : ∀ rest, postfixTurn funcs float pair (front ++ rest) useFloat valueStack =
      .ok (core.map fun c => (rest, c))) (rest : PostfixExpression) :
    OverRead funcs float (pair :: (front ++ rest)) useFloat valueStack ↔
      ∃ c, core = .ok c ∧ OverRead funcs float rest c.1 c.2 := by
  have hloop (b : PostfixExpression) :
      postfixLoop funcs float (pair :: (front ++ b)) useFloat valueStack =
        core.bind fun c => postfixLoop funcs float b c.1 c.2 := by
    rw [postfixLoop_cons pair (front ++ b) useFloat valueStack (hcore b)]
    cases core <;> rfl
  constructor
  · rintro ⟨before, last, stack, heq, hop, ht, hstack, hargs⟩
    cases before with
    | nil =>
      obtain ⟨rfl, hrest⟩ := List.cons.inj heq
      have hone := takes_eq_one.mpr ⟨hop, ht⟩
      rw [List.append_eq_nil_iff.mp hrest |>.1, List.length_nil, hone] at hfront
      contradiction
    | cons first before =>
      obtain ⟨rfl, hrest⟩ := List.cons.inj heq
      rcases List.append_eq_append_iff.mp hrest with ⟨b, rfl, rfl⟩ | ⟨b, rfl, hb⟩
      · rw [hloop] at hstack
        cases core with
        | error e => cases hstack
        | ok c => exact ⟨c, rfl, b, last, stack, rfl, hop, ht, hstack, hargs⟩
      · cases b with
        | nil =>
          rw [List.append_nil] at hloop
          have hloop := hloop []
          rw [List.append_nil, hstack] at hloop
          cases core with
          | error e => cases hloop
          | ok c => exact ⟨c, rfl, [], last, _, hb.symm, hop, ht, rfl, by cases hloop; exact hargs⟩
        | cons x b =>
          have hle := takes_le pair
          rw [List.length_append, List.length_cons] at hfront
          obtain rfl : before = [] := List.length_eq_zero_iff.mp (by omega)
          exact absurd hstack (postfixLoop_singleton (by simp at hfront; omega) _ _ _)
  · rintro ⟨c, rfl, before, last, stack, rfl, hop, ht, hstack, hargs⟩
    refine ⟨pair :: (front ++ before), last, stack, by simp, hop, ht, ?_, hargs⟩
    rw [hloop]
    exact hstack

theorem postfixLoopChecked_cases (funcs : IExpressionFunctions) (float : FloatOps) {fuel : Nat}
    {exp : PostfixExpression} (hfuel : exp.length < fuel)
    (useFloat : Bool) (valueStack : List UInt64) :
    (OverRead funcs float exp useFloat valueStack ∧
        postfixLoopChecked funcs float fuel exp useFloat valueStack = .error .postfixVector) ∨
      (¬OverRead funcs float exp useFloat valueStack ∧
        ∃ r, postfixLoopChecked funcs float fuel exp useFloat valueStack = .ok r) := by
  induction fuel generalizing exp useFloat valueStack with
  | zero => exact absurd hfuel (Nat.not_lt_zero _)
  | succ fuel ih =>
    cases exp with
    | nil => exact .inr ⟨(by rintro ⟨before, last, stack, heq, -⟩; simp at heq), _, rfl⟩
    | cons pair exp =>
      rw [postfixLoopChecked]
      by_cases hlen : takes pair ≤ exp.length
      · have hfront : (exp.take (takes pair)).length = takes pair := by
          rw [List.length_take]
          omega
        obtain ⟨core, hcore⟩ := exists_core funcs float hfront useFloat
          valueStack
        have hover := overRead_cons hfront hcore (exp.drop (takes pair))
        have hturn := hcore (exp.drop (takes pair))
        rw [List.take_append_drop] at hover hturn
        rw [hover, hturn]
        cases core with
        | error e => exact .inr ⟨(by rintro ⟨c, hc, -⟩; cases hc), _, rfl⟩
        | ok c =>
          have hdrop : (exp.drop (takes pair)).length < fuel := by
            rw [List.length_drop]
            rw [List.length_cons] at hfuel
            omega
          rcases ih hdrop c.1 c.2 with ⟨hc, hloop⟩ | ⟨hc, r, hloop⟩
          · exact .inl ⟨⟨c, rfl, hc⟩, hloop⟩
          · refine .inr ⟨?_, r, hloop⟩
            rintro ⟨c', hc', hover'⟩
            cases hc'
            exact hc hover'
      · have hle := takes_le pair
        obtain rfl : exp = [] := List.length_eq_zero_iff.mp (by omega)
        have hone : takes pair = 1 := by
          rw [List.length_nil] at hlen
          omega
        obtain ⟨hop, ht⟩ := takes_eq_one.mp hone
        rw [postfixTurn_nil hone]
        split
        next hargs =>
          refine .inr ⟨?_, _, rfl⟩
          rintro ⟨before, last, stack, heq, -, -, hstack, hargs'⟩
          cases before with
          | nil =>
            cases heq
            cases hstack
            omega
          | cons first before => simp at heq
        next hargs =>
          exact .inl ⟨⟨[], pair, valueStack, rfl, hop, ht, rfl, Nat.not_lt.mp hargs⟩, rfl⟩

/-! ## Both functions -/

/-- The text is handled without a fault, and is taken for an expression only if its brackets are
nested. -/
structure Safe (funcs : IExpressionFunctions) (float : FloatOps) (text : List Char) : Prop where
  ends : ∃ r, parseExpressionChecked funcs float text = .ok r
  nested : ∀ exp, initPostfixExpressionChecked funcs float text = .ok (.ok exp) → Nested text

/-- Every token that is read fits the buffer; a text that is read to its end and whose brackets
close has them nested; and `,` or `:` is not the last that is evaluated. -/
structure SafeWhen (funcs : IExpressionFunctions) (float : FloatOps) (text : List Char) : Prop where
  tokens : TokensFit funcs text
  nested : ∀ pre rest last, Reached funcs text pre rest last → AtEnd text pre rest → Closes pre →
    Nested text
  operands : ∀ exp, initPostfixExpression funcs float text = .ok exp →
    ¬OverRead funcs float exp false []

theorem initPostfixExpressionChecked_eq (text : List Char) :
    initPostfixExpressionChecked funcs float text = (initRun funcs float text).bind fun
      | .error e => .ok (.error e)
      | .ok s =>
        match popToFence (· == bracketL) s.opcodeStack with
        | some _ => .ok (.error "Parenthesis not closed")
        | .none => .ok (.ok (s.dest ++ s.opcodeStack.map op)) := rfl

theorem not_mem_brackets_iff (stack : List ExpressionOpcodeType) :
    '(' ∉ brackets stack ↔ popToFence (· == bracketL) stack = .none := by
  have hiff : '(' ∈ brackets stack ↔ bracketL ∈ stack := by
    rw [brackets, List.mem_filterMap]
    constructor
    · rintro ⟨t, ht, hbracket⟩
      cases t <;> first | exact ht | cases hbracket
    · exact fun h => ⟨_, h, rfl⟩
  rw [hiff]
  constructor
  · refine fun h => popToFence_of_none fun t ht => beq_eq_false_iff_ne.mpr ?_
    rintro rfl
    exact h ht
  · refine fun hnone hmem => popToFence_ne_none hmem ?_ hnone
    exact beq_self_eq_true bracketL

theorem exists_initRun (float : FloatOps) (hfit : TokensFit funcs text) :
    ∃ r, initRun funcs float text = .ok r ∧ ∀ t, r = .ok t →
      ∃ pre rest last, Reached funcs text pre rest last ∧ AtEnd text pre rest ∧
        At pre rest last t := by
  have hrun := initLoopChecked_ok float hfit .start (.start text) (Nat.le_refl _)
  rw [List.length_nil, Nat.cast_zero, Int.sub_zero] at hrun
  exact hrun

theorem initPostfixExpressionChecked_of_run {s : InitState}
    (hrun : initRun funcs float text = .ok (.ok s)) :
    initPostfixExpressionChecked funcs float text =
      .ok (if popToFence (· == bracketL) s.opcodeStack = .none then
        .ok (s.dest ++ s.opcodeStack.map op) else .error "Parenthesis not closed") := by
  rw [initPostfixExpressionChecked_eq, hrun]
  change (match popToFence (· == bracketL) s.opcodeStack with
    | some _ => Except.ok (Except.error "Parenthesis not closed")
    | .none => .ok (.ok (s.dest ++ s.opcodeStack.map op))) = _
  cases popToFence (· == bracketL) s.opcodeStack <;> rfl

theorem parsePostfixExpressionChecked_cases (funcs : IExpressionFunctions) (float : FloatOps)
    (exp : PostfixExpression) :
    (OverRead funcs float exp false [] ∧
        parsePostfixExpressionChecked funcs float exp = .error .postfixVector) ∨
      (¬OverRead funcs float exp false [] ∧
        ∃ r, parsePostfixExpressionChecked funcs float exp = .ok r) := by
  rw [parsePostfixExpressionChecked]
  rcases postfixLoopChecked_cases funcs float (Nat.lt_succ_self exp.length)
    false [] with ⟨hover, hloop⟩ | ⟨hover, r, hloop⟩
  · exact .inl ⟨hover, by rw [hloop]; rfl⟩
  · refine .inr ⟨hover, ?_⟩
    rw [hloop]
    rcases r with e | (_ | ⟨value, _ | ⟨_, _⟩⟩)
    · exact ⟨_, rfl⟩
    · exact ⟨_, rfl⟩
    · exact ⟨_, rfl⟩
    · exact ⟨_, rfl⟩

theorem parseExpressionChecked_of_error {e : String}
    (h : initPostfixExpressionChecked funcs float text = .ok (.error e)) :
    parseExpressionChecked funcs float text = .ok (.error e) := by
  rw [parseExpressionChecked, h]
  rfl

theorem parseExpressionChecked_of_ok {exp : PostfixExpression}
    (h : initPostfixExpressionChecked funcs float text = .ok (.ok exp)) :
    parseExpressionChecked funcs float text = parsePostfixExpressionChecked funcs float exp := by
  rw [parseExpressionChecked, h]
  rfl

theorem safe_of_safeWhen (h : SafeWhen funcs float text) : Safe funcs float text := by
  obtain ⟨r, hrun, hend⟩ := exists_initRun float h.tokens
  cases r with
  | error e =>
    have hinit : initPostfixExpressionChecked funcs float text = .ok (.error e) := by
      rw [initPostfixExpressionChecked_eq, hrun]
      rfl
    refine ⟨⟨_, parseExpressionChecked_of_error hinit⟩, fun exp hexp => ?_⟩
    rw [hinit] at hexp
    cases hexp
  | ok s =>
    obtain ⟨pre, rest, last, hreached, hatend, hat⟩ := hend s rfl
    have hinit := initPostfixExpressionChecked_of_run hrun
    split at hinit
    next hpop =>
      constructor
      · have hover := h.operands _ (initPostfixExpressionChecked_eq_ok hinit)
        rw [parseExpressionChecked_of_ok hinit]
        exact (parsePostfixExpressionChecked_cases funcs float _).elim
          (fun hread => absurd hread.1 hover) (·.2)
      · exact fun exp _ => h.nested pre rest last hreached hatend
          ⟨_, hat.opened, (not_mem_brackets_iff _).mpr hpop⟩
    · refine ⟨⟨_, parseExpressionChecked_of_error hinit⟩, fun exp hexp => ?_⟩
      rw [hinit] at hexp
      cases hexp

theorem safeWhen_of_safe (h : Safe funcs float text) : SafeWhen funcs float text := by
  obtain ⟨r, hr⟩ := h.ends
  have hrun : ∃ u, initRun funcs float text = .ok u := by
    cases hinit : initRun funcs float text with
    | error fault =>
      rw [parseExpressionChecked, initPostfixExpressionChecked_eq, hinit] at hr
      cases hr
    | ok u => exact ⟨u, rfl⟩
  obtain ⟨u, hrun⟩ := hrun
  refine ⟨fun pre rest last hreached hlen hlong => ?_,
    fun pre rest last hreached hend hcloses => ?_, fun exp hexp hover => ?_⟩
  · by_contra hopened
    obtain ⟨s, fuel, hat, -, heq⟩ := hreached.state hrun hopened
    rw [hrun, initLoopChecked_overlong hat hlen hlong] at heq
    cases heq
  · obtain ⟨opened, hopened, hparen⟩ := hcloses
    obtain ⟨s, fuel, hat, -, heq⟩ := hreached.state hrun (by simp [hopened])
    rw [initLoopChecked_at_end hat hend] at heq
    rw [hat.opened] at hopened
    cases hopened
    have hinit := initPostfixExpressionChecked_of_run heq
    rw [if_pos ((not_mem_brackets_iff _).mp hparen)] at hinit
    exact h.nested _ hinit
  · have hinit : initPostfixExpressionChecked funcs float text = .ok (.ok exp) := by
      cases hinit : initPostfixExpressionChecked funcs float text with
      | error fault =>
        rw [parseExpressionChecked, hinit] at hr
        cases hr
      | ok v => rw [← hexp, initPostfixExpressionChecked_eq_ok hinit]
    rw [parseExpressionChecked_of_ok hinit] at hr
    rcases parsePostfixExpressionChecked_cases funcs float exp with
      ⟨-, hfault⟩ | ⟨hnot, -⟩
    · rw [hr] at hfault
      cases hfault
    · exact hnot hover

/-- Exactly these texts are handled safely. -/
theorem expression_safe_iff (funcs : IExpressionFunctions) (float : FloatOps) (text : List Char) :
    Safe funcs float text ↔ SafeWhen funcs float text :=
  ⟨safeWhen_of_safe, safe_of_safeWhen⟩

/-- An open bracket, a `,` that is last of the postfix form, and a token of 256 digits. -/
theorem not_safe :
    ¬Safe noFunctions noFloat ['[', '1'] ∧ ¬Safe noFunctions noFloat ['1', ',', '2'] ∧
      ¬Safe noFunctions noFloat (List.replicate 256 '0') := by
  refine ⟨fun h => ?_, fun h => ?_, fun h => ?_⟩
  · have hinit : initPostfixExpressionChecked noFunctions noFloat ['[', '1'] =
        .ok (.ok [⟨.const, 1⟩, op memL]) := by decide +kernel
    exact absurd (h.nested _ hinit) (by decide)
  · have hfault : parseExpressionChecked noFunctions noFloat ['1', ',', '2'] =
        .error .postfixVector := by decide +kernel
    obtain ⟨r, hr⟩ := h.ends
    rw [hfault] at hr
    cases hr
  · have hfault : parseExpressionChecked noFunctions noFloat (List.replicate 256 '0') =
        .error .tokenBuffer := by decide +kernel
    obtain ⟨r, hr⟩ := h.ends
    rw [hfault] at hr
    cases hr

end OmegaRed.DebugTools
