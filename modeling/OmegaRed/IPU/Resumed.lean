import OmegaRed.IPU.Whole

/-! A command that has to wait goes on where it stopped. -/

namespace OmegaRed.IPU

namespace Ipu

/-- `pos[0]` is of no account when a command is done. -/
def settle (r : Regs) : Regs := { r with pos0 := 0 }

def settled (x : Ipu Whole × Bool) : Whole × Regs × Bool := (x.1.io, settle x.1.reg, x.2)

/-- The registers apart from the tables that are read by 64 bits and `pos[0]`. -/
def rest (r : Regs) : Regs :=
  { r with
    pos0 := 0, niq := fun _ => 0, iq := fun _ => 0, vqclut := fun _ => 0, mb8 := fun _ => 0 }

/-- What no command changes in its turn. -/
def status (r : Regs) : BitVec 32 × Bool × Bool × Bool := (r.current, r.busy, r.dataBusy, r.topbusy)

/-- How far a command has come. -/
def progress (t : Ipu Whole) : Nat := t.io.pos + t.io.out.length + t.reg.index

structure Same (data : Nat → U128) (p : Passed) (s : Ipu Io) (t : Ipu Whole) : Prop where
  io : Matches data p s.io t.io
  reg : s.reg = t.reg

/-- There is input to read and room for output. -/
def Room (p : Passed) (s : Ipu Io) (t : Ipu Whole) : Prop :=
  t.io.pos + 64 ≤ 128 * p.sent ∧ s.io.out.OFC < 8

/-- The turn of the command `f` has come to `t'` and waits there. -/
structure Waits (data : Nat → U128) (p : Passed) (f : Ipu Whole → Ipu Whole × Bool)
    (s : Ipu Io) (t : Ipu Whole) (s' : Ipu Io) (t' : Ipu Whole) : Prop where
  same : Same data p s' t'
  resume : settled (f t') = settled (f t)
  status : status t'.reg = status t.reg
  stuck : ¬ Room p s' t'
  moved : Room p s t → progress t < progress t'
  bound : Room p s t → progress t' ≤ progress (f t').1

/-- A turn, and the same turn with all the input there; a `short` one reads 64 bits at most. -/
def Outcome (data : Nat → U128) (p : Passed) (short : Bool) (f : Ipu Whole → Ipu Whole × Bool)
    (s : Ipu Io) (t : Ipu Whole) (x : Ipu Io × Bool) : Prop :=
  (f t).2 = true ∧ status (f t).1.reg = status t.reg ∧
    if x.2 then Same data p x.1 (f t).1
    else (short = true → ¬ Room p s t) ∧ ∃ t', Waits data p f s t x.1 t'

theorem index_of_rest {r r' : Regs} (h : rest r = rest r') : r.index = r'.index := by
  change (rest r).index = (rest r').index
  rw [h]

theorem status_of_rest {r r' : Regs} (h : rest r = rest r') : status r = status r' := by
  change status (rest r) = status (rest r')
  rw [h]

section Tables

variable {data : Nat → U128} {p : Passed} {s : Ipu Io} {t : Ipu Whole}
  {set : Regs → Nat → BitVec 64 → Regs}

/-- The next 64 bits of a table. -/
def nextEntry (data : Nat → U128) (set : Regs → Nat → BitVec 64 → Regs) (t : Ipu Whole) :
    Ipu Whole :=
  ⟨{ t.io with pos := t.io.pos + 64 },
    { set t.reg t.reg.pos0 ((look data t.io.pos).bitsAt 8) with pos0 := t.reg.pos0 + 1 }⟩

theorem readTable_whole_succ (left : Nat) :
    readTable (whole data) set (left + 1) t =
      readTable (whole data) set left (nextEntry data set t) := rfl

variable (data) in
theorem readTable_whole (hset : ∀ r i v n, rest { set r i v with pos0 := n } = rest r)
    (left : Nat) (t : Ipu Whole) :
    (readTable (whole data) set left t).2 = true ∧
      (readTable (whole data) set left t).1.io = { t.io with pos := t.io.pos + 64 * left } ∧
      (readTable (whole data) set left t).1.reg.pos0 = t.reg.pos0 + left ∧
      rest (readTable (whole data) set left t).1.reg = rest t.reg := by
  induction left generalizing t with
  | zero => exact ⟨rfl, rfl, rfl, rfl⟩
  | succ left ih =>
    obtain ⟨hflag, hio, hpos, hrest⟩ := ih (nextEntry data set t)
    rw [readTable_whole_succ]
    refine ⟨hflag, ?_, ?_, ?_⟩
    · rw [hio]
      simp only [nextEntry, Nat.mul_succ, Nat.add_assoc, Nat.add_comm 64]
    · rw [hpos]
      simp only [nextEntry, Nat.add_assoc, Nat.add_comm 1]
    · rw [hrest]
      exact hset ..

/-- A table waits for its input. -/
structure TableWaits (data : Nat → U128) (p : Passed) (set : Regs → Nat → BitVec 64 → Regs)
    (n : Nat) (t : Ipu Whole) (s' : Ipu Io) (t' : Ipu Whole) : Prop where
  same : Same data p s' t'
  resume : readTable (whole data) set (n - t'.reg.pos0) t' =
    readTable (whole data) set (n - t.reg.pos0) t
  rest : rest t'.reg = rest t.reg
  out : t'.io.out = t.io.out
  pos : t.io.pos ≤ t'.io.pos
  short : ¬ t'.io.pos + 64 ≤ 128 * p.sent

variable (set) in
theorem Same.nextEntry (h : Same data p s t) (hhas : t.io.pos + 64 ≤ 128 * p.sent) :
    ∃ io', fifos.getBits 8 s.io true = (io', some ((look data t.io.pos).bitsAt 8)) ∧
      Same data p ⟨io', { set s.reg s.reg.pos0 ((look data t.io.pos).bitsAt 8) with
        pos0 := s.reg.pos0 + 1 }⟩ (nextEntry data set t) := by
  obtain ⟨io', hget, hio⟩ := h.io.getBits_some (k := 8) (by decide) true hhas
  refine ⟨io', hget, hio, ?_⟩
  rw [h.reg]
  rfl

theorem Same.readTable (hset : ∀ r i v n, rest { set r i v with pos0 := n } = rest r) {n left : Nat}
    (h : Same data p s t) (hleft : left = n - t.reg.pos0) :
    if (readTable fifos set left s).2 then
      Same data p (readTable fifos set left s).1 (readTable (whole data) set left t).1
    else ∃ t', TableWaits data p set n t (readTable fifos set left s).1 t' := by
  induction left generalizing s t with
  | zero => exact h
  | succ left ih =>
    by_cases hhas : t.io.pos + 64 ≤ 128 * p.sent
    · obtain ⟨io', hget, hnext⟩ := h.nextEntry set hhas
      have ih := ih hnext (by simp only [Ipu.nextEntry]; omega)
      rw [readTable_whole_succ, Ipu.readTable, hget]
      dsimp only
      split_ifs at ih ⊢ with hflag
      · exact ih
      · obtain ⟨t', hwaits⟩ := ih
        refine ⟨t', hwaits.same, ?_, ?_, hwaits.out, ?_, hwaits.short⟩
        · have hentry : n - (Ipu.nextEntry data set t).reg.pos0 = left := by
            simp only [Ipu.nextEntry]
            omega
          rw [hwaits.resume, hentry, ← hleft, readTable_whole_succ]
        · rw [hwaits.rest]
          exact hset ..
        · exact Nat.le_trans (Nat.le_add_right _ 64) hwaits.pos
    · obtain ⟨io', hget, hio⟩ := h.io.getBits_none (k := 8) (by decide) true hhas
      rw [Ipu.readTable, hget]
      dsimp only
      rw [if_neg Bool.false_ne_true]
      exact ⟨t, ⟨hio, h.reg⟩, rfl, rfl, rfl, Nat.le_refl _, hhas⟩

theorem Same.outcome_readTable (hset : ∀ r i v n, rest { set r i v with pos0 := n } = rest r)
    (h : Same data p s t) (n : Nat) :
    Outcome data p false (fun t => Ipu.readTable (whole data) set (n - t.reg.pos0) t) s t
      (Ipu.readTable fifos set (n - s.reg.pos0) s) := by
  obtain ⟨hflag, -, -, hrest⟩ := readTable_whole data hset (n - t.reg.pos0) t
  refine ⟨hflag, status_of_rest hrest, ?_⟩
  have htable := h.readTable hset (n := n) rfl
  rw [h.reg]
  split_ifs at htable ⊢ with hflag
  · exact htable
  · obtain ⟨t', hwaits⟩ := htable
    obtain ⟨-, hio, -, hrest⟩ := readTable_whole data hset (n - t'.reg.pos0) t'
    have hindex := index_of_rest hwaits.rest
    have hindex' := index_of_rest hrest
    have hpos := hwaits.pos
    have hshort := hwaits.short
    refine ⟨nofun, t', hwaits.same, congrArg settled hwaits.resume, status_of_rest hwaits.rest,
      fun hroom => hshort hroom.1, fun hroom => ?_, fun _ => ?_⟩
    · have hhas := hroom.1
      simp only [progress, hwaits.out, hindex]
      omega
    · simp only [progress, hio, hindex']
      omega

end Tables

section Commands

variable {data : Nat → U128} {p : Passed} {s : Ipu Io} {t : Ipu Whole}

theorem rest_setNiq (r : Regs) (i : Nat) (v : BitVec 64) (n : Nat) :
    rest { setNiq r i v with pos0 := n } = rest r := rfl

theorem rest_setIq (r : Regs) (i : Nat) (v : BitVec 64) (n : Nat) :
    rest { setIq r i v with pos0 := n } = rest r := rfl

theorem rest_setVqclut (r : Regs) (i : Nat) (v : BitVec 64) (n : Nat) :
    rest { setVqclut r i v with pos0 := n } = rest r := rfl

theorem rest_setMb8 (r : Regs) (i : Nat) (v : BitVec 64) (n : Nat) :
    rest { setMb8 r i v with pos0 := n } = rest r := rfl

theorem Same.ipuSETIQ (h : Same data p s t) (val : BitVec 32) :
    Outcome data p false (Ipu.ipuSETIQ (whole data) val) s t (Ipu.ipuSETIQ fifos val s) := by
  unfold Ipu.ipuSETIQ
  by_cases hniq : val.getLsbD 27 = true
  · simp only [if_pos hniq]
    exact h.outcome_readTable rest_setNiq 8
  · simp only [if_neg hniq]
    exact h.outcome_readTable rest_setIq 8

theorem Same.ipuSETVQ (h : Same data p s t) :
    Outcome data p false (Ipu.ipuSETVQ (whole data)) s t (Ipu.ipuSETVQ fifos s) :=
  h.outcome_readTable rest_setVqclut 4

theorem Same.waits_here {f : Ipu Whole → Ipu Whole × Bool} {s' : Ipu Io} (h : Same data p s' t)
    (hshort : ¬ t.io.pos + 64 ≤ 128 * p.sent) : Waits data p f s t s' t :=
  ⟨h, rfl, rfl, fun hroom => hshort hroom.1, fun hroom => absurd hroom.1 hshort,
    fun hroom => absurd hroom.1 hshort⟩

theorem Same.ipuFDEC (h : Same data p s t) :
    Outcome data p true (Ipu.ipuFDEC (whole data)) s t (Ipu.ipuFDEC fifos s) := by
  refine ⟨rfl, rfl, ?_⟩
  by_cases hhas : t.io.pos + 32 ≤ 128 * p.sent
  · obtain ⟨io', hget, hio⟩ := h.io.getBits_some (k := 4) (by decide) false hhas
    rw [Ipu.ipuFDEC, hget]
    refine ⟨hio, ?_⟩
    dsimp only
    rw [h.reg]
    rfl
  · obtain ⟨io', hget, hio⟩ := h.io.getBits_none (k := 4) (by decide) false hhas
    rw [Ipu.ipuFDEC, hget]
    dsimp only
    rw [if_neg Bool.false_ne_true]
    have hroom : ¬ t.io.pos + 64 ≤ 128 * p.sent := by omega
    exact ⟨fun _ hroom' => hroom hroom'.1, t, Same.waits_here ⟨hio, h.reg⟩ hroom⟩

theorem status_vdecData {ρ : Type} (P : Port ρ) (val : BitVec 32) (s : Ipu ρ) :
    status (vdecData P val s).reg = status s.reg := by
  unfold vdecData
  split <;> rfl

theorem Same.vdecData {limit : Nat} (hio : Near data p limit 32 s.io t.io) (hreg : s.reg = t.reg)
    (val : BitVec 32) :
    Same data p (Ipu.vdecData fifos val s) (Ipu.vdecData (whole data) val t) ∧
      (Ipu.vdecData (whole data) val t).io.pos ≤ limit := by
  obtain ⟨io, reg⟩ := s
  obtain rfl : reg = t.reg := hreg
  unfold Ipu.vdecData
  dsimp only at hio
  match (val.extractLsb' 26 2).toNat with
  | 0 =>
    obtain ⟨hvalue, hnext, hlimit⟩ := hio.getMacroblockAddressIncrement t.reg.mp1
    dsimp only
    rw [hvalue]
    exact ⟨⟨hnext, rfl⟩, hlimit⟩
  | 1 =>
    obtain ⟨hvalue, hnext, hlimit⟩ :=
      hio.getMacroblockModes t.reg.pct true t.reg.pictureStructure
    dsimp only
    rw [hvalue]
    exact ⟨⟨hnext, rfl⟩, hlimit⟩
  | 2 =>
    obtain ⟨hvalue, hnext, hlimit⟩ := hio.getMotionDelta
    dsimp only
    rw [hvalue]
    exact ⟨⟨hnext, rfl⟩, hlimit⟩
  | _ + 3 =>
    obtain ⟨hvalue, hnext, hlimit⟩ := hio.getDmv
    dsimp only
    rw [hvalue]
    exact ⟨⟨hnext, rfl⟩, hlimit⟩

theorem Same.vdecTop (h : Same data p s t) :
    if (Ipu.vdecTop fifos s).2 then
      Same data p (Ipu.vdecTop fifos s).1 (Ipu.vdecTop (whole data) t).1
    else Same data p (Ipu.vdecTop fifos s).1 { t with reg := { t.reg with pos0 := 1 } } ∧
      ¬ t.io.pos + 32 ≤ 128 * p.sent := by
  by_cases hhas : t.io.pos + 32 ≤ 128 * p.sent
  · obtain ⟨io', hget, hio⟩ := h.io.getBits_some (k := 4) (by decide) false hhas
    rw [Ipu.vdecTop, hget]
    refine ⟨hio, ?_⟩
    dsimp only
    rw [h.reg]
    rfl
  · obtain ⟨io', hget, hio⟩ := h.io.getBits_none (k := 4) (by decide) false hhas
    rw [Ipu.vdecTop, hget]
    dsimp only
    rw [if_neg Bool.false_ne_true, h.reg]
    exact ⟨⟨hio, rfl⟩, hhas⟩

theorem settled_vdecTop (n : Nat) :
    settled (Ipu.vdecTop (whole data) { t with reg := { t.reg with pos0 := n } }) =
      settled (Ipu.vdecTop (whole data) t) := rfl

theorem Same.ipuVDEC_top {u : Ipu Whole} {s' : Ipu Io} {val : BitVec 32} (h : Same data p s' u)
    (hstart : Ipu.ipuVDEC (whole data) val t = Ipu.vdecTop (whole data) u)
    (hstatus : status u.reg = status t.reg) (hlimit : u.io.pos ≤ t.io.pos + 32) :
    if (Ipu.vdecTop fifos s').2 then
      Same data p (Ipu.vdecTop fifos s').1 (Ipu.ipuVDEC (whole data) val t).1
    else (true = true → ¬ Room p s t) ∧
      ∃ t', Waits data p (Ipu.ipuVDEC (whole data) val) s t (Ipu.vdecTop fifos s').1 t' := by
  have htop := h.vdecTop
  split_ifs at htop ⊢ with hflag
  · rw [hstart]
    exact htop
  · obtain ⟨hsame, hshort⟩ := htop
    have hroom : ¬ t.io.pos + 64 ≤ 128 * p.sent := by omega
    refine ⟨fun _ hroom' => hroom hroom'.1, _, hsame, ?_, hstatus, fun hroom' => hshort ?_,
      fun hroom' => absurd hroom'.1 hroom, fun hroom' => absurd hroom'.1 hroom⟩
    · rw [hstart, Ipu.ipuVDEC, if_neg Nat.one_ne_zero, settled_vdecTop]
    · have hhas := hroom'.1
      dsimp only at hhas
      omega

theorem Same.setEcd (h : Same data p s t) :
    Same data p { s with reg := { s.reg with ecd := s.reg.data == 0 } }
      { t with reg := { t.reg with ecd := t.reg.data == 0 } } := by
  refine ⟨h.io, ?_⟩
  dsimp only
  rw [h.reg]

theorem Same.ipuVDEC (h : Same data p s t) (val : BitVec 32) :
    Outcome data p true (Ipu.ipuVDEC (whole data) val) s t (Ipu.ipuVDEC fifos val s) := by
  obtain ⟨io, reg⟩ := s
  obtain rfl : reg = t.reg := h.reg
  refine ⟨?_, ?_, ?_⟩
  · rw [Ipu.ipuVDEC]
    split_ifs <;> rfl
  · rw [Ipu.ipuVDEC]
    split_ifs
    · exact status_vdecData (whole data) val t
    · rfl
  by_cases hpos : t.reg.pos0 = 0
  · have hstart : Ipu.ipuVDEC (whole data) val t = Ipu.vdecTop (whole data)
        { Ipu.vdecData (whole data) val t with
          reg := { (Ipu.vdecData (whole data) val t).reg with
            ecd := (Ipu.vdecData (whole data) val t).reg.data == 0 } } := if_pos hpos
    obtain ⟨hfill, hflag, hnear⟩ := h.io.fillBuffer (n := 32) (by decide)
    rw [Ipu.ipuVDEC, if_pos hpos]
    generalize fifos.fillBuffer io 32 = filled at hfill hflag hnear
    obtain ⟨io', flag⟩ := filled
    cases flag with
    | false =>
      have hshort := of_decide_eq_false hflag.symm
      have hroom : ¬ t.io.pos + 64 ≤ 128 * p.sent := by omega
      exact ⟨fun _ hroom' => hroom hroom'.1, t, Same.waits_here ⟨hfill, rfl⟩ hroom⟩
    | true =>
      obtain ⟨hdata, hlimit⟩ := Same.vdecData (s := ⟨io', t.reg⟩) (hnear rfl) rfl val
      exact hdata.setEcd.ipuVDEC_top hstart (status_vdecData _ val t) hlimit
  · rw [Ipu.ipuVDEC, if_neg hpos]
    exact h.ipuVDEC_top (if_neg hpos) rfl (Nat.le_add_right _ _)

end Commands

section Csc

variable {data : Nat → U128} {p : Passed} {s : Ipu Io} {t : Ipu Whole}
  {yuv2rgb : (Nat → BitVec 64) → Nat → U128} {val : BitVec 32}

variable (yuv2rgb val) in
theorem convert_fields (r : Regs) :
    (convert yuv2rgb val r).index = r.index ∧ (convert yuv2rgb val r).pos0 = r.pos0 ∧
      status (convert yuv2rgb val r) = status r := by
  rw [convert]
  split_ifs <;> exact ⟨rfl, rfl, rfl⟩

theorem convert_convert (r : Regs) (n : Nat) :
    convert yuv2rgb val { convert yuv2rgb val r with pos1 := n } =
      { convert yuv2rgb val r with pos1 := n } := by
  unfold convert
  split_ifs <;> rfl

/-- The macroblock after the one that `t` is at. -/
def nextMacroblock (data : Nat → U128) (yuv2rgb : (Nat → BitVec 64) → Nat → U128)
    (val : BitVec 32) (t : Ipu Whole) : Ipu Whole :=
  let u := (readTable (whole data) setMb8 (48 - t.reg.pos0) t).1
  let reg := convert yuv2rgb val u.reg
  ⟨{ u.io with out := u.io.out ++ (macroblock val reg).drop reg.pos1 },
    { reg with index := reg.index + 1, pos0 := 0, pos1 := 0 }⟩

theorem cscLoop_read {ρ : Type} {P : Port ρ} {left : Nat} {s u : Ipu ρ} {reg : Regs} {w : ρ × Nat}
    (hread : readTable P setMb8 (48 - s.reg.pos0) s = (u, true))
    (hreg : convert yuv2rgb val u.reg = reg)
    (hwrite : P.write u.io ((macroblock val reg).drop reg.pos1) = w) :
    cscLoop P yuv2rgb val (left + 1) s =
      if reg.pos1 + w.2 < (macroblock val reg).length then
        (⟨w.1, { reg with pos1 := reg.pos1 + w.2 }⟩, false)
      else cscLoop P yuv2rgb val left
        ⟨w.1, { reg with index := reg.index + 1, pos0 := 0, pos1 := 0 }⟩ := by
  subst hreg hwrite
  rw [cscLoop, hread]
  rfl

theorem cscLoop_whole_succ (left : Nat) (t : Ipu Whole) :
    cscLoop (whole data) yuv2rgb val (left + 1) t =
      cscLoop (whole data) yuv2rgb val left (nextMacroblock data yuv2rgb val t) := by
  obtain ⟨hflag, -, -, -⟩ := readTable_whole data rest_setMb8 (48 - t.reg.pos0) t
  rw [cscLoop_read (Prod.ext rfl hflag) rfl rfl, if_neg]
  · rfl
  · change ¬ _ + List.length _ < _
    rw [List.length_drop]
    omega

variable (data yuv2rgb val) in
theorem nextMacroblock_reg (t : Ipu Whole) :
    (nextMacroblock data yuv2rgb val t).reg.index = t.reg.index + 1 ∧
      status (nextMacroblock data yuv2rgb val t).reg = status t.reg := by
  obtain ⟨-, -, -, hrest⟩ := readTable_whole data rest_setMb8 (48 - t.reg.pos0) t
  rw [nextMacroblock]
  obtain ⟨hindex, -, hstatus⟩ := convert_fields yuv2rgb val
    (readTable (whole data) setMb8 (48 - t.reg.pos0) t).1.reg
  exact ⟨congrArg (· + 1) (hindex.trans (index_of_rest hrest)),
    hstatus.trans (status_of_rest hrest)⟩

variable (data yuv2rgb val) in
theorem progress_nextMacroblock (t : Ipu Whole) :
    progress t < progress (nextMacroblock data yuv2rgb val t) := by
  have hindex := (nextMacroblock_reg data yuv2rgb val t).1
  obtain ⟨-, hio, -, -⟩ := readTable_whole data rest_setMb8 (48 - t.reg.pos0) t
  rw [progress, progress, hindex]
  simp only [nextMacroblock, hio, List.length_append]
  omega

theorem cscLoop_whole (left : Nat) (t : Ipu Whole) :
    (cscLoop (whole data) yuv2rgb val left t).2 = true ∧
      status (cscLoop (whole data) yuv2rgb val left t).1.reg = status t.reg ∧
      progress t ≤ progress (cscLoop (whole data) yuv2rgb val left t).1 := by
  induction left generalizing t with
  | zero => exact ⟨rfl, rfl, Nat.le_refl _⟩
  | succ left ih =>
    obtain ⟨hflag, hstatus, hle⟩ := ih (nextMacroblock data yuv2rgb val t)
    rw [cscLoop_whole_succ]
    exact ⟨hflag, hstatus.trans (nextMacroblock_reg data yuv2rgb val t).2,
      Nat.le_trans (Nat.le_of_lt (progress_nextMacroblock data yuv2rgb val t)) hle⟩

theorem readTable_out (set : Regs → Nat → BitVec 64 → Regs) (left : Nat) (s : Ipu Io) :
    (readTable fifos set left s).1.io.out = s.io.out := by
  induction left generalizing s with
  | zero => rfl
  | succ left ih =>
    rw [readTable]
    split
    · next heq => exact congrArg (fun x : Io × _ => x.1.out) heq.symm
    · next heq => exact (ih _).trans (congrArg (fun x : Io × _ => x.1.out) heq.symm)

theorem nextMacroblock_of_le (h : 48 ≤ t.reg.pos0) : nextMacroblock data yuv2rgb val t =
    let reg := convert yuv2rgb val t.reg
    ⟨{ t.io with out := t.io.out ++ (macroblock val reg).drop reg.pos1 },
      { reg with index := reg.index + 1, pos0 := 0, pos1 := 0 }⟩ := by
  rw [nextMacroblock, Nat.sub_eq_zero_of_le h]
  rfl

theorem nextMacroblock_resume {u : Ipu Whole} {reg : Regs} {n : Nat}
    (hread : (readTable (whole data) setMb8 (48 - t.reg.pos0) t).1 = u)
    (hreg : convert yuv2rgb val u.reg = reg) :
    nextMacroblock data yuv2rgb val
      ⟨{ u.io with out := u.io.out ++ ((macroblock val reg).drop reg.pos1).take n },
        { reg with pos1 := reg.pos1 + n }⟩ = nextMacroblock data yuv2rgb val t := by
  obtain ⟨-, -, hpos, -⟩ := readTable_whole data rest_setMb8 (48 - t.reg.pos0) t
  subst hreg
  rw [hread, ← (convert_fields yuv2rgb val u.reg).2.1] at hpos
  rw [nextMacroblock_of_le (by dsimp only; omega)]
  have htail (out l : List U128) (k : Nat) :
      out ++ (l.drop k).take n ++ l.drop (k + n) = out ++ l.drop k := by
    rw [List.append_assoc, ← List.drop_drop, List.take_append_drop]
  rw [convert_convert, nextMacroblock, hread]
  exact congrArg (fun out => (⟨⟨u.io.pos, out⟩, _⟩ : Ipu Whole)) (htail _ _ _)

theorem ipuCSC_next {left : Nat} (hleft : left + 1 = mbc val - t.reg.index) :
    ipuCSC (whole data) yuv2rgb val t =
      ipuCSC (whole data) yuv2rgb val (nextMacroblock data yuv2rgb val t) := by
  have hnext : mbc val - (t.reg.index + 1) = left := by omega
  rw [ipuCSC, ← hleft, cscLoop_whole_succ, ipuCSC, (nextMacroblock_reg data yuv2rgb val t).1, hnext]

theorem Same.waits_csc {left : Nat} {s' : Ipu Io} {t' : Ipu Whole} (h : Same data p s' t')
    (hleft : left + 1 = mbc val - t.reg.index)
    (hresume : nextMacroblock data yuv2rgb val t' = nextMacroblock data yuv2rgb val t)
    (hstuck : ¬ Room p s' t') (hmoved : Room p s t → progress t < progress t') :
    Waits data p (ipuCSC (whole data) yuv2rgb val) s t s' t' := by
  obtain ⟨hindex, hstatus⟩ := nextMacroblock_reg data yuv2rgb val t
  obtain ⟨hindex', hstatus'⟩ := nextMacroblock_reg data yuv2rgb val t'
  rw [hresume] at hindex' hstatus'
  have hleft' : left + 1 = mbc val - t'.reg.index := by omega
  refine ⟨h, ?_, hstatus'.symm.trans hstatus, hstuck, hmoved, fun _ => (cscLoop_whole _ t').2.2⟩
  rw [ipuCSC_next hleft', hresume, ← ipuCSC_next hleft]

theorem write_count (io : Io) (l : List U128) :
    (fifos.write io l).2 = min l.length (8 - io.out.OFC) ∧
      (fifos.write io l).1.out.OFC = io.out.OFC + (fifos.write io l).2 := by
  have hfold (l : List U128) (o : FifoOut) : (l.foldl FifoOut.push o).OFC = o.OFC := by
    induction l generalizing o with
    | nil => rfl
    | cons x l ih => exact ih (o.push x)
  exact ⟨rfl, hfold ..⟩

variable (yuv2rgb) in
/-- The macroblock has been read, and is written as far as the output FIFO takes it. -/
theorem Same.afterRead {left : Nat} {s₁ : Ipu Io} {u : Ipu Whole} (h : Same data p s₁ u)
    (hu : (Ipu.readTable (whole data) setMb8 (48 - t.reg.pos0) t).1 = u)
    (hleft : left + 1 = mbc val - t.reg.index) (hout : s₁.io.out = s.io.out) {reg : Regs}
    (hreg : convert yuv2rgb val s₁.reg = reg) {w : Io × Nat}
    (hw : fifos.write s₁.io ((macroblock val reg).drop reg.pos1) = w) :
    if reg.pos1 + w.2 < (macroblock val reg).length then
      ∃ t', Waits data p (ipuCSC (whole data) yuv2rgb val) s t
        ⟨w.1, { reg with pos1 := reg.pos1 + w.2 }⟩ t' ∧ progress t ≤ progress t'
    else Same data p ⟨w.1, { reg with index := reg.index + 1, pos0 := 0, pos1 := 0 }⟩
      (nextMacroblock data yuv2rgb val t) := by
  obtain ⟨-, hio, -, hrest⟩ := readTable_whole data rest_setMb8 (48 - t.reg.pos0) t
  have hwritten := h.io.write ((macroblock val reg).drop reg.pos1)
  obtain ⟨hcount, hofc⟩ := write_count s₁.io ((macroblock val reg).drop reg.pos1)
  obtain ⟨queue, hqueue, -⟩ := h.io.out
  have hroom : s₁.io.out.OFC ≤ 8 := hqueue.ifc
  rw [hw] at hwritten hcount hofc
  rw [h.reg] at hreg
  rw [hu] at hio hrest
  have hindex : reg.index = t.reg.index := by
    rw [← hreg, (convert_fields yuv2rgb val u.reg).1]
    exact index_of_rest hrest
  have hlen := List.length_drop (i := reg.pos1) (l := macroblock val reg)
  split_ifs with hfull
  · refine ⟨⟨_, { reg with pos1 := reg.pos1 + w.2 }⟩, Same.waits_csc ⟨hwritten, rfl⟩ hleft
      (nextMacroblock_resume hu hreg) (fun hroom' => ?_) fun hroom' => ?_, ?_⟩
    · have hofc' := hroom'.2
      dsimp only at hofc'
      omega
    · have hofc' := hroom'.2
      rw [← hout] at hofc'
      simp only [progress, hio, hindex, List.length_append, List.length_take]
      omega
    · simp only [progress, hio, hindex, List.length_append]
      omega
  · rw [List.take_of_length_le (by omega)] at hwritten
    subst hu hreg
    exact ⟨hwritten, rfl⟩

variable (yuv2rgb val) in
theorem Same.cscLoop {left : Nat} (h : Same data p s t) (hleft : left = mbc val - t.reg.index) :
    if (Ipu.cscLoop fifos yuv2rgb val left s).2 then
      Same data p (Ipu.cscLoop fifos yuv2rgb val left s).1 (ipuCSC (whole data) yuv2rgb val t).1
    else ∃ t', Waits data p (ipuCSC (whole data) yuv2rgb val) s t
        (Ipu.cscLoop fifos yuv2rgb val left s).1 t' ∧ progress t ≤ progress t' := by
  induction left generalizing s t with
  | zero =>
    rw [ipuCSC, ← hleft]
    exact h
  | succ left ih =>
    have htable := h.readTable rest_setMb8 (n := 48) rfl
    have hout := readTable_out setMb8 (48 - t.reg.pos0) s
    cases hread : Ipu.readTable fifos setMb8 (48 - t.reg.pos0) s with
    | mk s₁ flag =>
    rw [hread] at htable hout
    rw [← h.reg] at hread
    cases flag with
    | false =>
      obtain ⟨t', hwaits⟩ := htable
      have hloop : Ipu.cscLoop fifos yuv2rgb val (left + 1) s = (s₁, false) := by
        rw [Ipu.cscLoop, hread]
      have hindex := index_of_rest hwaits.rest
      have hpos := hwaits.pos
      have hshort := hwaits.short
      rw [hloop]
      refine ⟨t', hwaits.same.waits_csc hleft ?_ (fun hroom => hshort hroom.1) fun hroom => ?_, ?_⟩
      · rw [nextMacroblock, hwaits.resume]
        rfl
      · have hhas := hroom.1
        simp only [progress, hwaits.out, hindex]
        omega
      · simp only [progress, hwaits.out, hindex]
        omega
    | true =>
      have hafter := Same.afterRead yuv2rgb htable rfl hleft hout rfl rfl
      rw [cscLoop_read hread rfl rfl]
      split_ifs at hafter with hfull
      · rw [if_pos hfull]
        exact hafter
      · have hnext := nextMacroblock_reg data yuv2rgb val t
        have hrun := ih hafter (by rw [hnext.1]; omega)
        rw [if_neg hfull, ipuCSC_next hleft]
        split_ifs at hrun ⊢ with hflag
        · exact hrun
        · obtain ⟨t', hwaits, hle⟩ := hrun
          have hlt := progress_nextMacroblock data yuv2rgb val t
          refine ⟨t', ⟨hwaits.same, ?_, hwaits.status.trans hnext.2, hwaits.stuck,
            fun _ => Nat.lt_of_lt_of_le hlt hle, fun _ => (cscLoop_whole _ t').2.2⟩,
            Nat.le_of_lt (Nat.lt_of_lt_of_le hlt hle)⟩
          rw [hwaits.resume, ← ipuCSC_next hleft]

theorem Same.ipuCSC (h : Same data p s t) :
    Outcome data p false (Ipu.ipuCSC (whole data) yuv2rgb val) s t (Ipu.ipuCSC fifos yuv2rgb val s) := by
  refine ⟨(cscLoop_whole _ t).1, (cscLoop_whole _ t).2.1, ?_⟩
  have hloop := h.cscLoop yuv2rgb val rfl
  rw [Ipu.ipuCSC, h.reg]
  split_ifs at hloop ⊢ with hflag
  · exact hloop
  · obtain ⟨t', hwaits, -⟩ := hloop
    exact ⟨nofun, t', hwaits⟩

end Csc

section Turns

variable {data : Nat → U128} {p : Passed} {s : Ipu Io} {t : Ipu Whole} {short : Bool}
  {f g : Ipu Whole → Ipu Whole × Bool} {x : Ipu Io × Bool}

theorem Outcome.congr (hfg : ∀ u, status u.reg = status t.reg → f u = g u)
    (h : Outcome data p short g s t x) : Outcome data p short f s t x := by
  rw [Outcome, hfg t rfl]
  refine ⟨h.1, h.2.1, ?_⟩
  have hcase := h.2.2
  split_ifs at hcase ⊢ with hflag
  · exact hcase
  · obtain ⟨hshort, t', hwaits⟩ := hcase
    have ht' := hfg t' hwaits.status
    refine ⟨hshort, t', hwaits.same, ?_, hwaits.status, hwaits.stuck, hwaits.moved, ?_⟩
    · rw [ht', hfg t rfl, hwaits.resume]
    · rw [ht']
      exact hwaits.bound

/-- The five commands. -/
def Known (val : BitVec 32) : Prop := 3 ≤ cmd val ∧ cmd val ≤ 7

theorem Same.turn (yuv2rgb : (Nat → BitVec 64) → Nat → U128) (h : Same data p s t)
    (hcmd : Known t.reg.current) :
    Outcome data p (usesData t.reg.current) (Ipu.turn (whole data) yuv2rgb) s t
      (Ipu.turn fifos yuv2rgb s) := by
  have hcurrent {u : Ipu Whole} (hu : status u.reg = status t.reg) :
      u.reg.current = t.reg.current := congrArg Prod.fst hu
  obtain ⟨hlow, hhigh⟩ := hcmd
  unfold usesData Ipu.turn
  rw [h.reg]
  generalize hn : cmd t.reg.current = n at hlow hhigh
  match n, hlow, hhigh with
  | 3, _, _ =>
    refine Outcome.congr (fun u hu => ?_) (h.ipuVDEC t.reg.current)
    simp only [hcurrent hu, hn]
  | 4, _, _ =>
    refine Outcome.congr (fun u hu => ?_) h.ipuFDEC
    simp only [hcurrent hu, hn]
  | 5, _, _ =>
    refine Outcome.congr (fun u hu => ?_) (h.ipuSETIQ t.reg.current)
    simp only [hcurrent hu, hn]
  | 6, _, _ =>
    refine Outcome.congr (fun u hu => ?_) h.ipuSETVQ
    simp only [hcurrent hu, hn]
  | 7, _, _ =>
    refine Outcome.congr (fun u hu => ?_) h.ipuCSC
    simp only [hcurrent hu, hn]

end Turns

end Ipu

end OmegaRed.IPU
