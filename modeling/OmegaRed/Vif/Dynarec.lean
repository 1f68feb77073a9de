import Mathlib

/-! What the generated unpack code uses of the processor: the SSE registers, and the instructions
on them and on the two address registers. -/

namespace OmegaRed.Vif

instance neZero_lanes : NeZero 4 := ⟨four_ne_zero⟩

inductive Xmm
  | dest | work | col (i : Fin 4) | row | temp
  deriving DecidableEq

inductive Ins
  | addEcx (imm : Int)
  | addEdx (imm : Int)
  | movups (r : Xmm) (disp : Int)
  | movss (r : Xmm) (disp : Int)
  | pmovBD (usn : Bool) (r : Xmm) (disp : Int)
  | pmovWD (usn : Bool) (r : Xmm) (disp : Int)
  | punpckLBW (r s : Xmm)
  | punpckLWD (r s : Xmm)
  | psrl (r : Xmm) (n : Nat)
  | psra (r : Xmm) (n : Nat)
  | psll (r : Xmm) (n : Nat)
  | pshufd (r s : Xmm) (imm : Nat)
  | andMask (r : Xmm) (k : Fin 4)
  | merge (r s : Xmm) (xyzw : BitVec 32)
  | movaps (r s : Xmm)
  | pxor (r : Xmm)
  | paddd (r s : Xmm)
  | loadDst (r : Xmm) (disp : Int)
  | storeDst (disp : Int) (r : Xmm)
  | loadRow (r : Xmm)
  | storeRow (r : Xmm)
  | loadCol (r : Xmm)

namespace Machine

/-- Where a piece of code stores to VU memory. -/
def stores (ecx : Int) : List Ins → List Int
  | [] => []
  | .addEcx imm :: code => stores (ecx + imm) code
  | .storeDst disp _ :: code => (ecx + disp) :: stores ecx code
  | _ :: code => stores ecx code

end Machine

end OmegaRed.Vif

/-! `VifUnpackSSE_Dynarec`: the code that is generated for an unpack block. -/

namespace OmegaRed.Vif

/-- The unpack formats; 3, 7 and 11 are none. -/
inductive Upk
  | s32 | s16 | s8 | v2_32 | v2_16 | v2_8 | v3_32 | v3_16 | v3_8 | v4_32 | v4_16 | v4_8 | v4_5
  deriving DecidableEq

/-- `nVifT`, the bytes of the source that each vector takes. -/
def Upk.size : Upk → Nat
  | .s32 => 4
  | .s16 => 2
  | .s8 => 1
  | .v2_32 => 8
  | .v2_16 => 4
  | .v2_8 => 2
  | .v3_32 => 12
  | .v3_16 => 6
  | .v3_8 => 3
  | .v4_32 => 16
  | .v4_16 => 8
  | .v4_8 => 4
  | .v4_5 => 2

/-- An `nVifBlock`; `upkType` is taken apart into `usn`, `mask1` and `upk`. -/
structure Block where
  num : UInt8
  upk : Upk
  doMask : Bool
  usn : Bool
  mask : BitVec 32
  mode : UInt8
  aligned : UInt8
  cl : UInt8
  wl : UInt8

namespace Block

variable (b : Block)

/-- 0 is taken as 256. -/
def wlCount : Nat := if b.wl = 0 then 256 else b.wl.toNat

def isFill : Bool := b.cl.toNat < b.wlCount

def cycleSize : Nat := if b.isFill then b.cl.toNat else b.wlCount

def blockSize : Nat := if b.isFill then b.wlCount else b.cl.toNat

def skipSize : Int := (b.blockSize : Int) - b.cycleSize

def vNum : Nat := if b.num = 0 then 256 else b.num.toNat

/-- `V4_5` has no mode feature. -/
def doMode : Nat := if b.upk = .v4_5 then 0 else b.mode.toNat % 4

end Block

section Unpack

variable (sse4 usn : Bool) (disp : Int)

def xShiftR (r : Xmm) (n : Nat) : Ins := if usn then .psrl r n else .psra r n

def xUPK_S_32 : Nat → List Ins
  | 0 => [.movups .work disp, .pshufd .dest .work 0x00]
  | 1 => [.pshufd .dest .work 0x55]
  | 2 => [.pshufd .dest .work 0xaa]
  | 3 => [.pshufd .dest .work 0xff]
  | _ => []

def xUPK_S_16 (iteration : Nat) : List Ins :=
  if !sse4 then
    [.movss .work disp, .punpckLWD .work .work, xShiftR usn .work 16, .pshufd .dest .work 0x00]
  else
    match iteration with
    | 0 => [.pmovWD usn .work disp, .pshufd .dest .work 0x00]
    | 1 => [.pshufd .dest .work 0x55]
    | 2 => [.pshufd .dest .work 0xaa]
    | 3 => [.pshufd .dest .work 0xff]
    | _ => []

def xUPK_S_8 (iteration : Nat) : List Ins :=
  if !sse4 then
    [.movss .work disp, .punpckLBW .work .work, .punpckLWD .work .work, xShiftR usn .work 24,
      .pshufd .dest .work 0x00]
  else
    match iteration with
    | 0 => [.pmovBD usn .work disp, .pshufd .dest .work 0x00]
    | 1 => [.pshufd .dest .work 0x55]
    | 2 => [.pshufd .dest .work 0xaa]
    | 3 => [.pshufd .dest .work 0xff]
    | _ => []

def xUPK_V2_32 (isAligned iteration : Nat) : List Ins :=
  (if iteration = 0 then [.movups .work disp, .pshufd .dest .work 0x44]
    else [.pshufd .dest .work 0xee] : List Ins) ++
  (if isAligned ≠ 0 then [.andMask .dest 0] else [] : List Ins)

def xUPK_V2_16 (iteration : Nat) : List Ins :=
  if iteration = 0 then
    (if sse4 then [.pmovWD usn .work disp]
      else [.movups .work disp, .punpckLWD .work .work, xShiftR usn .work 16]) ++
    [.pshufd .dest .work 0x44]
  else [.pshufd .dest .work 0xee]

def xUPK_V2_8 (iteration : Nat) : List Ins :=
  if iteration = 0 ∨ !sse4 then
    (if sse4 then [.pmovBD usn .work disp]
      else [.movss .work disp, .punpckLBW .work .work, .punpckLWD .work .work,
        xShiftR usn .work 24]) ++
    [.pshufd .dest .work 0x44]
  else [.pshufd .dest .work 0xee]

def xUPK_V3_32 (isAligned iteration : Nat) : List Ins :=
  .movups .dest disp :: if iteration ≠ isAligned then [.andMask .dest 0] else []

/-- W becomes 0 where this iteration ends on a quadword boundary. -/
def xUPK_V3_16 (isAligned iteration : Nat) : List Ins :=
  (if sse4 then [.pmovWD usn .dest disp]
    else [.movups .dest disp, .punpckLWD .dest .dest, xShiftR usn .dest 16]) ++
  let result := ((iteration / 4 + 1 + (4 - isAligned : Int)) % 4).toNat
  if iteration % 2 = 0 ∧ result = 0 then [.andMask .dest 0] else []

def xUPK_8 : List Ins :=
  if sse4 then [.pmovBD usn .dest disp]
  else [.movss .dest disp, .punpckLBW .dest .dest, .punpckLWD .dest .dest, xShiftR usn .dest 24]

def xUPK_V3_8 : List Ins := xUPK_8 sse4 usn disp

def xUPK_V4_32 : List Ins := [.movups .dest disp]

def xUPK_V4_16 : List Ins :=
  if sse4 then [.pmovWD usn .dest disp]
  else [.movups .dest disp, .punpckLWD .dest .dest, xShiftR usn .dest 16]

def xUPK_V4_8 : List Ins := xUPK_8 sse4 usn disp

def xUPK_V4_5 : List Ins :=
  [.movss .work disp, .pshufd .work .work 0x00, .psll .work 3, .movaps .dest .work,
    .psrl .work 8, .psll .work 3, .merge .dest .work 0x4, .psrl .work 8, .psll .work 3,
    .merge .dest .work 0x2, .psrl .work 8, .psll .work 7, .merge .dest .work 0x1,
    .psll .dest 24, .psrl .dest 24]

def xUnpack (isAligned iteration : Nat) : Upk → List Ins
  | .s32 => xUPK_S_32 disp iteration
  | .s16 => xUPK_S_16 sse4 usn disp iteration
  | .s8 => xUPK_S_8 sse4 usn disp iteration
  | .v2_32 => xUPK_V2_32 disp isAligned iteration
  | .v2_16 => xUPK_V2_16 sse4 usn disp iteration
  | .v2_8 => xUPK_V2_8 sse4 usn disp iteration
  | .v3_32 => xUPK_V3_32 disp isAligned iteration
  | .v3_16 => xUPK_V3_16 sse4 usn disp isAligned iteration
  | .v3_8 => xUPK_V3_8 sse4 usn disp
  | .v4_32 => xUPK_V4_32 disp
  | .v4_16 => xUPK_V4_16 sse4 usn disp
  | .v4_8 => xUPK_V4_8 sse4 usn disp
  | .v4_5 => xUPK_V4_5 disp

end Unpack

/-- `ModUnpack`, what becomes of `UnpkLoopIteration` before or after an unpack. -/
def modUnpack (postOp : Bool) (iteration : Nat) : Upk → Nat
  | .s32 | .s16 | .s8 => if postOp then (iteration + 1) % 4 else iteration
  | .v2_32 | .v2_16 | .v2_8 | .v3_32 => if postOp then (iteration + 1) % 2 else iteration
  | .v3_16 => if postOp then iteration else iteration + 1
  | _ => iteration

/-- `makeMergeMask`: one bit for each lane that had one in its pair. -/
def makeMergeMask (x : BitVec 32) : BitVec 32 :=
  ((x &&& 0x40) >>> 6) ||| ((x &&& 0x10) >>> 3) ||| (x &&& 4) ||| ((x &&& 1) <<< 3)

/-- Merges registers without modifying the source. -/
def mergeVectors (sse4 : Bool) (d s t : Xmm) (xyzw : BitVec 32) : List Ins :=
  if sse4 ∨ xyzw = 15 ∨ xyzw = 12 ∨ xyzw = 11 ∨ xyzw = 8 ∨ xyzw = 3 then [.merge d s xyzw]
  else
    (if t ≠ s then [.movaps t s] else [] : List Ins) ++
    (if d = t then
      (if xyzw &&& 1 = 0 then [.andMask d 0] else [] : List Ins) ++
      (if xyzw &&& 2 = 0 then [.andMask d 1] else [] : List Ins) ++
      (if xyzw &&& 4 = 0 then [.andMask d 2] else [] : List Ins) ++
      (if xyzw &&& 8 = 0 then [.andMask d 3] else [] : List Ins)
    else [.merge d t xyzw] : List Ins)

namespace Block

variable (sse4 : Bool) (b : Block)

def setMasks (cS : Nat) : List Ins :=
  let m0 := b.mask
  let m3 := ((m0 &&& 0xaaaaaaaa) >>> 1) &&& ~~~m0
  let m2 := (m0 &&& 0x55555555) &&& (~~~m0 >>> 1)
  (if (m2 ≠ 0 ∧ b.doMask) ∨ b.doMode ≠ 0 then [.loadRow .row] else [] : List Ins) ++
  (if m3 ≠ 0 ∧ b.doMask then
    ([.loadCol (.col 0)] : List Ins) ++
    (if 2 ≤ cS ∧ m3 &&& 0x0000ff00 ≠ 0 then [.pshufd (.col 1) (.col 0) 0x55] else [] : List Ins) ++
    (if 3 ≤ cS ∧ m3 &&& 0x00ff0000 ≠ 0 then [.pshufd (.col 2) (.col 0) 0xaa] else [] : List Ins) ++
    (if 4 ≤ cS ∧ m3 &&& 0xff000000 ≠ 0 then [.pshufd (.col 3) (.col 0) 0xff] else [] : List Ins) ++
    (if 1 ≤ cS ∧ m3 &&& 0x000000ff ≠ 0 then [.pshufd (.col 0) (.col 0) 0x00] else [] : List Ins)
  else [] : List Ins)

/-- The merge masks `m2` of the row, `m3` of the column and `m4` of the write protect, for the
mask row of a cycle. -/
def mergeMasks (cc : Fin 4) : BitVec 32 × BitVec 32 × BitVec 32 :=
  let m0 := (b.mask >>> (cc.val * 8)) &&& 0xff
  let m3 := ((m0 &&& 0xaa) >>> 1) &&& ~~~m0
  let m2 := (m0 &&& 0x55) &&& (~~~m0 >>> 1)
  let m4 := (m0 &&& ~~~((m3 <<< 1) ||| m2)) &&& 0x55
  (makeMergeMask m2, makeMergeMask m3, makeMergeMask m4)

/-- The part of `doMaskWrite` that merges row, column and what is protected. -/
def mergeCode (cc : Fin 4) (dst : Int) : List Ins :=
  let (m2, m3, m4) := b.mergeMasks cc
  (if b.doMask ∧ m2 ≠ 0 then mergeVectors sse4 .dest .row .temp m2 else []) ++
  (if b.doMask ∧ m3 ≠ 0 then mergeVectors sse4 .dest (.col cc) .temp m3 else []) ++
  if b.doMask ∧ m4 ≠ 0 then .loadDst .temp dst :: mergeVectors sse4 .dest .temp .temp m4 else []

/-- The lanes that the mode applies to. -/
def modeMask (cc : Fin 4) : BitVec 32 :=
  let (m2, m3, m4) := b.mergeMasks cc
  if !b.doMask then 0xf else ~~~(m2 ||| m3 ||| m4) &&& 0xf

/-- The part of `doMaskWrite` that adds and updates the row. -/
def modeCode (cc : Fin 4) : List Ins :=
  let m5 := b.modeMask cc
  if b.doMode = 0 then []
  else if m5 < 0xf then
    .pxor .temp ::
    if b.doMode = 3 then mergeVectors sse4 .row .dest .temp m5
    else
      mergeVectors sse4 .temp .row .temp m5 ++ [.paddd .dest .temp] ++
      if b.doMode = 2 then mergeVectors sse4 .row .dest .temp m5 else []
  else if b.doMode = 3 then [.movaps .row .dest]
  else .paddd .dest .row :: if b.doMode = 2 then [.movaps .row .dest] else []

/-- The mask row of a cycle. -/
def cc (vCL : Nat) : Fin 4 := ⟨min vCL 3, by omega⟩

def doMaskWrite (vCL : Nat) (dst : Int) : List Ins :=
  b.mergeCode sse4 (cc vCL) dst ++ b.modeCode sse4 (cc vCL) ++ [.storeDst dst .dest]

def xMovDest (vCL : Nat) (dst : Int) : List Ins :=
  if b.doMode = 0 ∧ !b.doMask then [.storeDst dst .dest] else b.doMaskWrite sse4 vCL dst

/-- `ShiftDisplacementWindow`: what is added to the register, and the displacement left. -/
def shiftDisplacementWindow (disp : Int) : Int × Int :=
  if 0x80 ≤ disp then
    let res := shiftDisplacementWindow (disp - 0xf0)
    (res.1 + 0xf0, res.2)
  else (0, disp)
termination_by disp.toNat

def shiftDst (disp : Int) : List Ins :=
  let addImm := (shiftDisplacementWindow disp).1
  if addImm ≠ 0 then [.addEcx addImm] else []

def shiftSrc (disp : Int) : List Ins :=
  let addImm := (shiftDisplacementWindow disp).1
  if addImm ≠ 0 then [.addEdx addImm] else []

theorem wlCount_pos : 0 < b.wlCount := by
  rw [wlCount]
  split
  · decide
  · exact Nat.pos_of_ne_zero fun h => ‹¬ b.wl = 0› (UInt8.toNat.inj h)

theorem cycleSize_pos (h : b.isFill = false) : 0 < b.cycleSize := by
  rw [cycleSize, h]
  exact b.wlCount_pos

/-- Is there a skip to be made before the next unpack? -/
def pending (vCL : Nat) : Nat := if vCL < b.cycleSize then 0 else 1

theorem pending_le (vCL : Nat) : b.pending vCL ≤ 1 := by
  rw [pending]
  split <;> omega

/-- `if (++vCL == blockSize) vCL = 0`. -/
def nextCL (vCL : Nat) : Nat := if vCL + 1 = b.blockSize then 0 else vCL + 1

/-- The loop of `CompileRoutine`. -/
def compileLoop (vNum vCL iteration : Nat) (dst src : Int) : List Ins :=
  if vNum = 0 then []
  else
    let shift := shiftDst dst ++ shiftSrc src
    let dst := (shiftDisplacementWindow dst).2
    let src := (shiftDisplacementWindow src).2
    if vCL < b.cycleSize then
      let iteration := modUnpack false iteration b.upk
      shift ++ xUnpack sse4 b.usn src b.aligned.toNat iteration b.upk ++ b.xMovDest sse4 vCL dst ++
        compileLoop (vNum - 1) (b.nextCL vCL)
          (modUnpack true iteration b.upk) (dst + 16) (src + b.upk.size)
    else if b.isFill then
      shift ++ xUnpack sse4 b.usn src b.aligned.toNat iteration b.upk ++ b.xMovDest sse4 vCL dst ++
        compileLoop (vNum - 1) (b.nextCL vCL) iteration
          (dst + 16) src
    else shift ++ compileLoop vNum 0 iteration (dst + 16 * b.skipSize) src
termination_by 2 * vNum + b.pending vCL
decreasing_by
  · have := b.pending_le (b.nextCL vCL)
    omega
  · have := b.pending_le (b.nextCL vCL)
    omega
  · have hcycle := b.cycleSize_pos (Bool.eq_false_iff.mpr ‹¬ b.isFill = true›)
    rw [pending, pending, if_pos hcycle, if_neg ‹¬ vCL < b.cycleSize›]
    omega

section Loop

variable {b} {n vCL iteration : Nat} {dst src : Int}

/-- Is the next thing in the loop a vector, and not a skip? -/
def Writes (b : Block) (vCL : Nat) : Prop := vCL < b.cycleSize ∨ b.isFill

/-- `UnpkLoopIteration` as the unpack of a vector finds it. -/
def iterationAt (b : Block) (vCL iteration : Nat) : Nat :=
  if vCL < b.cycleSize then modUnpack false iteration b.upk else iteration

def iterationAfter (b : Block) (vCL iteration : Nat) : Nat :=
  if vCL < b.cycleSize then modUnpack true (modUnpack false iteration b.upk) b.upk else iteration

/-- What a vector takes of the source. -/
def taken (b : Block) (vCL : Nat) : Nat := if vCL < b.cycleSize then b.upk.size else 0

theorem compileLoop_zero (vCL iteration : Nat) (dst src : Int) :
    b.compileLoop sse4 0 vCL iteration dst src = [] := by
  rw [compileLoop, if_pos rfl]

theorem compileLoop_write (h : b.Writes vCL) :
    b.compileLoop sse4 (n + 1) vCL iteration dst src =
      shiftDst dst ++ shiftSrc src ++
        xUnpack sse4 b.usn (shiftDisplacementWindow src).2 b.aligned.toNat
          (b.iterationAt vCL iteration) b.upk ++
        b.xMovDest sse4 vCL (shiftDisplacementWindow dst).2 ++
        b.compileLoop sse4 n (b.nextCL vCL) (b.iterationAfter vCL iteration)
          ((shiftDisplacementWindow dst).2 + 16)
          ((shiftDisplacementWindow src).2 + b.taken vCL) := by
  rw [compileLoop, if_neg (Nat.succ_ne_zero n), iterationAt, iterationAfter, taken]
  by_cases hcycle : vCL < b.cycleSize
  · simp only [if_pos hcycle]
    rfl
  · simp only [if_neg hcycle, if_pos (h.resolve_left hcycle)]
    simp

theorem compileLoop_skip (h : ¬ b.Writes vCL) :
    b.compileLoop sse4 (n + 1) vCL iteration dst src =
      shiftDst dst ++ shiftSrc src ++ b.compileLoop sse4 (n + 1) 0 iteration
        ((shiftDisplacementWindow dst).2 + 16 * b.skipSize) (shiftDisplacementWindow src).2 := by
  obtain ⟨hcycle, hfill⟩ := not_or.mp h
  rw [compileLoop, if_neg (Nat.succ_ne_zero n)]
  simp only [if_neg hcycle, if_neg hfill]

end Loop

def compileRoutine : List Ins :=
  b.setMasks (if b.isFill then b.blockSize else b.cycleSize) ++
  b.compileLoop sse4 b.vNum 0 0 0 0 ++
  if 2 ≤ b.doMode then [.storeRow .row] else []

end Block

/-- `dVifComputeLength`; the sums and products are unsigned. -/
def dVifComputeLength (cl wl : Nat) (num : UInt8) (isFill : Bool) : Nat :=
  let length := if 0 < num.toNat then num.toNat * 16 else 4096
  let length :=
    if !isFill then
      let skipSize := (cl - wl) * 16
      let blocks := (num.toNat + (wl - 1)) / wl
      (length + (blocks + (2 ^ 32 - 1)) % 2 ^ 32 * skipSize) % 2 ^ 32
    else length
  min length 0xffff

def Block.length (b : Block) : Nat := dVifComputeLength b.cl.toNat b.wl.toNat b.num b.isFill

/-- The end of the VU's memory. -/
def vuMemLimit (idx : Bool) : Nat := if idx then 0x4000 else 0x1000

def startmem (idx : Bool) (tagAddr : UInt32) : Nat :=
  tagAddr.toNat &&& (vuMemLimit idx - 0x10)

/-- Does `dVifUnpack` run the block? -/
def Block.fast (b : Block) (idx : Bool) (tagAddr : UInt32) : Prop :=
  startmem idx tagAddr + b.length ≤ vuMemLimit idx

end OmegaRed.Vif
