import Mathlib.Data.BitVec
import Mathlib.Data.List.Basic

/-! The GIF path of the GS plugin: its tag, and the registers that are still to come. -/

namespace OmegaRed.GSdx

instance neZero_paths : NeZero 4 := ⟨four_ne_zero⟩

/-- `GIFPackedReg`, and any other quadword of a packet. -/
abbrev GIFPackedReg := BitVec 128

abbrev GIFReg := BitVec 64

inductive GIF_FLG
  | PACKED
  | REGLIST
  | IMAGE
  | IMAGE2
  deriving DecidableEq

/-- The low half of a tag, which is what `GIFPath` keeps of it. -/
abbrev GIFTag := BitVec 64

namespace GIFTag

def NLOOP (tag : GIFTag) : Nat := (tag.extractLsb' 0 15).toNat
def EOP (tag : GIFTag) : Bool := tag.getLsbD 15
def PRE (tag : GIFTag) : Bool := tag.getLsbD 46
def PRIM (tag : GIFTag) : BitVec 11 := tag.extractLsb' 47 11
def NREG (tag : GIFTag) : Nat := (tag.extractLsb' 60 4).toNat

def FLG (tag : GIFTag) : GIF_FLG :=
  match (tag.extractLsb' 58 2).toNat with
  | 0 => .PACKED
  | 1 => .REGLIST
  | 2 => .IMAGE
  | _ => .IMAGE2

/-- `(b & 0xf0000000) ? (b >> 28) : 16` -/
def nreg (tag : GIFTag) : Nat := if tag.NREG = 0 then 16 else tag.NREG

end GIFTag

inductive GIFPathType
  | UNKNOWN
  | ADONLY
  | STQRGBAXYZF2
  | STQRGBAXYZ2
  deriving DecidableEq

structure GIFPath where
  tag : GIFTag
  nloop : Nat
  nreg : Nat
  reg : Nat
  type : GIFPathType
  regs : List (BitVec 4)

namespace GIFPath

/-- A path after `Reset`. -/
def init : GIFPath := ⟨0, 0, 0, 0, .UNKNOWN, []⟩

/-- The 16 bytes of `regs`: the register descriptors up to `nreg`, and zeros. -/
def unpackRegs (REGS : BitVec 64) (nreg : Nat) : List (BitVec 4) :=
  (List.range 16).map fun i => if i < nreg then REGS.extractLsb' (4 * i) 4 else 0

/-- `regs.eq8(0x0e0e0e0e).mask() == (1 << nreg) - 1` -/
def adOnly (regs : List (BitVec 4)) (nreg : Nat) : Bool :=
  (List.range 16).all fun i => (regs.getD i 0 == 0xe) == decide (i < nreg)

/-- The type of a packed tag, with the factor by which its loop is unrolled. -/
def classify (regs : List (BitVec 4)) (nreg : Nat) : GIFPathType × Nat :=
  if adOnly regs nreg then (.ADONLY, 1)
  else
    match nreg with
    | 3 =>
      if regs.take 4 = [2, 1, 4, 0] then (.STQRGBAXYZF2, 1)
      else if regs.take 4 = [2, 1, 5, 0] then (.STQRGBAXYZ2, 1)
      else (.UNKNOWN, 1)
    | 9 =>
      if regs.take 12 = [2, 1, 4, 2, 1, 4, 2, 1, 4, 0, 0, 0] then (.STQRGBAXYZF2, 3)
      else (.UNKNOWN, 1)
    | 12 =>
      if regs.take 12 = [2, 1, 4, 2, 1, 4, 2, 1, 4, 2, 1, 4] then (.STQRGBAXYZF2, 4)
      else (.UNKNOWN, 1)
    | _ => (.UNKNOWN, 1)

/-- `SetTag` -/
def setTag (path : GIFPath) (mem : GIFPackedReg) : GIFPath :=
  let tag : GIFTag := mem.extractLsb' 0 64
  if tag.NLOOP = 0 then { path with tag := tag, nloop := 0 }
  else
    let regs := unpackRegs (mem.extractLsb' 64 64) tag.nreg
    if tag.FLG = .PACKED then
      let (type, fold) := classify regs tag.nreg
      ⟨tag, tag.NLOOP * fold, if fold = 1 then tag.nreg else 3, 0, type, regs⟩
    else ⟨tag, tag.NLOOP, tag.nreg, 0, .UNKNOWN, regs⟩

/-- `GetReg` -/
def getReg (path : GIFPath) (index : Nat) : BitVec 4 := path.regs.getD index 0

/-- `StepReg`, with its result. -/
def stepReg (path : GIFPath) : GIFPath × Bool :=
  if path.reg + 1 = path.nreg then
    ({ path with reg := 0, nloop := path.nloop - 1 }, path.nloop - 1 ≠ 0)
  else ({ path with reg := path.reg + 1 }, true)

end GIFPath

end OmegaRed.GSdx

/-! The handlers of packed registers, over whatever the vertices and registers then do. -/

namespace OmegaRed.GSdx

/-- `GSVertex`, the two vectors of `m_v`. -/
structure GSVertex where
  S : BitVec 32
  T : BitVec 32
  RGBA : BitVec 32
  Q : BitVec 32
  XY : BitVec 32
  Z : BitVec 32
  UV : BitVec 32
  FOG : BitVec 32
  deriving DecidableEq

/-- The rest of the plugin, on its state `W`. -/
structure Plugin (W : Type) where
  /-- `m_fpGIFRegHandlers` -/
  regHandler : BitVec 8 → GIFReg → W × GSVertex → W × GSVertex
  /-- `VertexKick` for the primitive that is set. -/
  vertexKick : BitVec 32 → W × GSVertex → W × GSVertex
  applyPRIM : BitVec 11 → W → W
  /-- What the packed `UV` handler does to a user's hack. -/
  uvHack : W → W
  /-- A quadword of image data. -/
  write : GIFPackedReg → W → W
  move : W → W
  XDIR : W → BitVec 2
  XDIR_write : ∀ r gs, XDIR (write r gs) = XDIR gs
  m_frameskip : W → Bool
  m_mt : Bool

/-- The state that the handlers work on. -/
@[ext]
structure Machine (W : Type) where
  gs : W
  m_v : GSVertex
  m_q : BitVec 32

/-- `u32[i]` -/
def u32 (r : GIFPackedReg) (i : Nat) : BitVec 32 := r.extractLsb' (32 * i) 32

/-- `GSVector4::m_one` -/
def m_one : BitVec 32 := 0x3f800000

/-- `GSVector4::m_max` -/
def m_max : BitVec 32 := 0x7f7fffff

def isNaN (q : BitVec 32) : Bool := q.extractLsb' 23 8 == 0xff && q.extractLsb' 0 23 != 0

/-- `replace_nan` with `m_max`. -/
def replace_nan (q : BitVec 32) : BitVec 32 := if isNaN q then m_max else q

/-- A `Q` of zero is set to one. -/
def nonzeroQ (q : BitVec 32) : BitVec 32 := if q = 0 then m_one else q

/-- The low bytes of the four words. -/
def rgba (r : GIFPackedReg) : BitVec 32 :=
  r.extractLsb' 96 8 ++ r.extractLsb' 64 8 ++ r.extractLsb' 32 8 ++ r.extractLsb' 0 8

/-- The low halves of the first two words. -/
def xy (r : GIFPackedReg) : BitVec 32 := r.extractLsb' 32 16 ++ r.extractLsb' 0 16

/-- `Skip()` -/
def skip (r : GIFPackedReg) : BitVec 32 := u32 r 3 &&& 0x8000

namespace Machine

variable {W : Type} (P : Plugin W)

/-- `m_fpGIFRegHandlers[ADDR](r)` -/
def regHandler (ADDR : BitVec 8) (r : GIFReg) (s : Machine W) : Machine W :=
  let (gs, m_v) := P.regHandler ADDR r (s.gs, s.m_v)
  { s with gs := gs, m_v := m_v }

def vertexKick (skip : BitVec 32) (s : Machine W) : Machine W :=
  let (gs, m_v) := P.vertexKick skip (s.gs, s.m_v)
  { s with gs := gs, m_v := m_v }

/-- `GIFPackedRegHandlerRGBA` -/
def packedRGBA (r : GIFPackedReg) (s : Machine W) : Machine W :=
  { s with m_v := { s.m_v with RGBA := rgba r, Q := s.m_q } }

/-- `GIFPackedRegHandlerSTQ` -/
def packedSTQ (r : GIFPackedReg) (s : Machine W) : Machine W :=
  { s with
    m_v := { s.m_v with S := u32 r 0, T := u32 r 1 }
    m_q := replace_nan (nonzeroQ (u32 r 2)) }

/-- `GIFPackedRegHandlerUV` -/
def packedUV (r : GIFPackedReg) (s : Machine W) : Machine W :=
  { s with
    m_v := { s.m_v with
      UV := (r.extractLsb' 32 14).setWidth 16 ++ (r.extractLsb' 0 14).setWidth 16 }
    gs := P.uvHack s.gs }

/-- What the `XYZF2` handlers put into `m_v`. -/
def setXYZF2 (r : GIFPackedReg) (m_v : GSVertex) : GSVertex :=
  { m_v with XY := xy r, Z := u32 r 2 >>> 4 &&& 0xffffff, FOG := u32 r 3 >>> 4 &&& 0xff }

/-- What the `XYZ2` handlers put into `m_v`. -/
def setXYZ2 (r : GIFPackedReg) (m_v : GSVertex) : GSVertex := { m_v with XY := xy r, Z := u32 r 2 }

/-- A handler that sets a position and kicks the vertex; frames that are skipped have none. -/
def packedXYZ (set : GIFPackedReg → GSVertex → GSVertex) (adc : Bool) (r : GIFPackedReg)
    (s : Machine W) : Machine W :=
  if P.m_frameskip s.gs then s
  else vertexKick P (if adc then 1 else skip r) { s with m_v := set r s.m_v }

/-- `GIFPackedRegHandlerFOG` -/
def packedFOG (r : GIFPackedReg) (s : Machine W) : Machine W :=
  { s with m_v := { s.m_v with FOG := u32 r 3 >>> 4 &&& 0xff } }

/-- `m_fpGIFPackedRegHandlers[reg](r)` -/
def packedRegHandler (reg : BitVec 4) (r : GIFPackedReg) (s : Machine W) : Machine W :=
  match reg.toNat with
  | 0x0 => s.regHandler P 0x00 (r.extractLsb' 0 64)
  | 0x1 => s.packedRGBA r
  | 0x2 => s.packedSTQ r
  | 0x3 => s.packedUV P r
  | 0x4 => s.packedXYZ P setXYZF2 false r
  | 0x5 => s.packedXYZ P setXYZ2 false r
  | 0x6 => s.regHandler P 0x06 (r.extractLsb' 0 64)
  | 0x7 => s.regHandler P 0x07 (r.extractLsb' 0 64)
  | 0x8 => s.regHandler P 0x08 (r.extractLsb' 0 64)
  | 0x9 => s.regHandler P 0x09 (r.extractLsb' 0 64)
  | 0xa => s.packedFOG r
  | 0xc => s.packedXYZ P setXYZF2 true r
  | 0xd => s.packedXYZ P setXYZ2 true r
  | 0xe => s.regHandler P (r.extractLsb' 64 8) (r.extractLsb' 0 64)
  | _ => s

/-- One round of `GIFPackedRegHandlerSTQRGBAXYZF2` and `GIFPackedRegHandlerSTQRGBAXYZ2`. -/
def combined (set : GIFPackedReg → GSVertex → GSVertex) (r0 r1 r2 : GIFPackedReg)
    (s : Machine W) : Machine W :=
  let m_v : GSVertex := { s.m_v with
    S := u32 r0 0, T := u32 r0 1, RGBA := rgba r1, Q := nonzeroQ (u32 r0 2) }
  vertexKick P (skip r2) { s with m_v := set r2 m_v }

end Machine

end OmegaRed.GSdx

/-! `GSState::Transfer`: the packets of a path, in calls of whole quadwords. -/

namespace OmegaRed.GSdx

/-- The machine and the path of the calls. -/
structure State (W : Type) where
  m : Machine W
  path : GIFPath

namespace State

variable {W : Type} (P : Plugin W)

/-- A packed register at `path.reg`, and what `StepReg` says. -/
def stepPacked (s : State W) (r : GIFPackedReg) : State W × Bool :=
  let (path, more) := s.path.stepReg
  (⟨s.m.packedRegHandler P (s.path.getReg s.path.reg) r, path⟩, more)

/-- The loop that gets to the start of the registers. -/
def toLoopStart (s : State W) : List GIFPackedReg → State W × List GIFPackedReg
  | [] => (s, [])
  | r :: mem =>
    let (s, more) := s.stepPacked P r
    if more ∧ mem ≠ [] ∧ s.path.reg ≠ 0 then toLoopStart s mem else (s, mem)

/-- The loop for a packet of which only a part is there. Like every loop here it reads a quadword
before it looks at the size: `none` is a read beyond the data. -/
def packedPart (s : State W) : List GIFPackedReg → Option (State W × List GIFPackedReg)
  | [] => none
  | r :: mem =>
    let (s, more) := s.stepPacked P r
    if more ∧ mem ≠ [] then packedPart s mem else some (s, mem)

/-- The loop of `TYPE_UNKNOWN`. -/
def unknownLoop (path : GIFPath) (total : BitVec 32) (reg : Nat) (m : Machine W) :
    List GIFPackedReg → Option (Machine W × List GIFPackedReg)
  | [] => none
  | r :: mem =>
    let m := m.packedRegHandler P (path.getReg reg) r
    let reg := if reg + 1 < path.nreg then reg + 1 else 0
    if total - 1 = 0 then some (m, mem) else unknownLoop path (total - 1) reg m mem

/-- The loop of `TYPE_ADONLY`. -/
def adOnlyLoop (total : BitVec 32) (m : Machine W) :
    List GIFPackedReg → Option (Machine W × List GIFPackedReg)
  | [] => none
  | r :: mem =>
    let m := m.regHandler P (r.extractLsb' 64 8) (r.extractLsb' 0 64)
    if total - 1 = 0 then some (m, mem) else adOnlyLoop (total - 1) m mem

def combinedLoop (set : GIFPackedReg → GSVertex → GSVertex) (m : Machine W) :
    List GIFPackedReg → Machine W
  | r0 :: r1 :: r2 :: mem => combinedLoop set (m.combined P set r0 r1 r2) mem
  | _ => m

/-- `GIFPackedRegHandlerSTQRGBAXYZF2` and `GIFPackedRegHandlerSTQRGBAXYZ2`, which read `r[-3]` in
the end; with no registers this is before the data. -/
def combinedHandler (set : GIFPackedReg → GSVertex → GSVertex) (total : Nat) (m : Machine W)
    (mem : List GIFPackedReg) : Option (Machine W × List GIFPackedReg) :=
  if P.m_frameskip m.gs then some (m, mem.drop total)
  else if total = 0 then none
  else
    let m := combinedLoop P set m (mem.take total)
    some ({ m with m_q := u32 (mem.getD (total - 3) 0) 2 }, mem.drop total)

/-- All the registers that are still to come. -/
def packedAll (total : Nat) (s : State W) (mem : List GIFPackedReg) :
    Option (Machine W × List GIFPackedReg) :=
  match s.path.type with
  | .UNKNOWN => unknownLoop P s.path (.ofNat 32 total) 0 s.m mem
  | .ADONLY => adOnlyLoop P (.ofNat 32 total) s.m mem
  | .STQRGBAXYZF2 => combinedHandler P Machine.setXYZF2 total s.m mem
  | .STQRGBAXYZ2 => combinedHandler P Machine.setXYZ2 total s.m mem

/-- `GIF_FLG_PACKED` -/
def packed (s : State W) (mem : List GIFPackedReg) : Option (State W × List GIFPackedReg) :=
  let (s, mem) := if s.path.reg ≠ 0 then s.toLoopStart P mem else (s, mem)
  let total := s.path.nloop * s.path.nreg
  if total ≤ mem.length then do
    let (m, mem) ← s.packedAll P total mem
    some (⟨m, { s.path with nloop := 0 }⟩, mem)
  else s.packedPart P mem

/-- The two registers of a quadword. -/
def halves (r : GIFPackedReg) : List GIFReg := [r.extractLsb' 0 64, r.extractLsb' 64 64]

def reglistLoop (s : State W) : List GIFReg → State W × List GIFReg
  | [] => (s, [])
  | r :: mem =>
    let m := s.m.regHandler P ((s.path.getReg s.path.reg).setWidth 8) r
    let (path, more) := s.path.stepReg
    if more ∧ mem ≠ [] then reglistLoop ⟨m, path⟩ mem else (⟨m, path⟩, mem)

/-- `GIF_FLG_REGLIST`; half a quadword at the end is skipped. -/
def reglist (s : State W) (mem : List GIFPackedReg) : State W × List GIFPackedReg :=
  let (s, rest) := s.reglistLoop P (mem.flatMap halves)
  (s, mem.drop (mem.length - rest.length / 2))

/-- `GIF_FLG_IMAGE` -/
def image (s : State W) (mem : List GIFPackedReg) : State W × List GIFPackedReg :=
  let len := min mem.length s.path.nloop
  let gs :=
    match (P.XDIR s.m.gs).toNat with
    | 0 => (mem.take len).foldl (fun gs r => P.write r gs) s.m.gs
    | 2 => P.move s.m.gs
    | _ => s.m.gs
  (⟨{ s.m with gs := gs }, { s.path with nloop := s.path.nloop - len }⟩, mem.drop len)

/-- What a tag does; one without a loop does nothing. -/
def tag (s : State W) (mem : GIFPackedReg) : State W :=
  let path := s.path.setTag mem
  if path.nloop > 0 then
    let gs :=
      if path.tag.PRE ∧ path.tag.FLG = .PACKED then P.applyPRIM path.tag.PRIM s.m.gs else s.m.gs
    ⟨{ s.m with gs := gs, m_q := m_one }, path⟩
  else ⟨s.m, path⟩

/-- One round of the loop of `Transfer`. -/
def round (s : State W) : List GIFPackedReg → Option (State W × List GIFPackedReg)
  | [] => some (s, [])
  | r :: mem =>
    if s.path.nloop = 0 then some (s.tag P r, mem)
    else
      match s.path.tag.FLG with
      | .PACKED => s.packed P (r :: mem)
      | .REGLIST => some (s.reglist P (r :: mem))
      | .IMAGE | .IMAGE2 => some (s.image P (r :: mem))

/-- The loop of `Transfer`; the first path stops at the end of a packet. -/
def rounds (index : Fin 4) (fuel : Nat) (s : State W) (mem : List GIFPackedReg) :
    Option (State W × List GIFPackedReg) :=
  match fuel, mem with
  | _, [] => some (s, [])
  | 0, _ :: _ => none
  | fuel + 1, r :: mem => do
    let (s, rest) ← s.round P (r :: mem)
    if index = 0 ∧ s.path.tag.EOP ∧ s.path.nloop = 0 then some (s, rest)
    else rounds index fuel s rest

/-- `Transfer`. Every round takes a quadword at least, so that there are not more rounds than
quadwords. A first path that has not ended its packet gives it up; without `m_mt` it goes on with
the memory before the data. -/
def transfer (index : Fin 4) (s : State W) (mem : List GIFPackedReg) : Option (State W) := do
  let (s, rest) ← s.rounds P index mem.length mem
  if index = 0 ∧ rest = [] ∧ s.path.nloop > 0 then
    if P.m_mt then some { s with path := { s.path with nloop := 0 } } else none
  else some s

/-- Calls of `Transfer` one after the other. -/
def transfers (index : Fin 4) (s : State W) : List (List GIFPackedReg) → Option (State W)
  | [] => some s
  | mem :: calls => do (← s.transfer P index mem).transfers index calls

end State

end OmegaRed.GSdx
