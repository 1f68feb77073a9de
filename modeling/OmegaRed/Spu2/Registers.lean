import Mathlib

/-! The registers of the SPU2: the variables behind them, and the table through which they are
read. -/

namespace OmegaRed.Spu2.Registers

scoped instance neZero_cores : NeZero 2 := ⟨by decide⟩
scoped instance neZero_params : NeZero 8 := ⟨by decide⟩

inductive Side
  | Left
  | Right
  deriving DecidableEq

/-- `V_VolumeSlide` -/
inductive SlideCell
  | Reg_VOL
  | Value
  | Increment
  | Mode
  deriving DecidableEq

/-- `V_Voice`, with its `V_ADSR`. -/
inductive VoiceCell
  | Volume (side : Side) (f : SlideCell)
  | regADSR1
  | regADSR2
  | ADSRValue
  | Phase
  | Releasing
  | Pitch
  | LoopStartA
  | StartA
  | NextA
  | Modulated
  | Noise
  | LoopMode
  | SCurrent
  | PlayCycle
  deriving DecidableEq

/-- `V_VoiceGates` -/
inductive VoiceGate
  | DryL
  | DryR
  | WetL
  | WetR
  deriving DecidableEq

/-- `V_CoreGates` -/
inductive CoreGate
  | Inp (side : Side)
  | Snd (side : Side)
  | Ext (side : Side)
  deriving DecidableEq

/-- The addresses and sizes of `V_Reverb`. -/
inductive RevbAddr
  | APF1_SIZE
  | APF2_SIZE
  | SAME_L_DST
  | SAME_R_DST
  | COMB1_L_SRC
  | COMB1_R_SRC
  | COMB2_L_SRC
  | COMB2_R_SRC
  | SAME_L_SRC
  | SAME_R_SRC
  | DIFF_L_DST
  | DIFF_R_DST
  | COMB3_L_SRC
  | COMB3_R_SRC
  | COMB4_L_SRC
  | COMB4_R_SRC
  | DIFF_L_SRC
  | DIFF_R_SRC
  | APF1_L_DST
  | APF1_R_DST
  | APF2_L_DST
  | APF2_R_DST
  deriving DecidableEq

/-- The volumes and coefficients of `V_Reverb`. -/
inductive RevbVol
  | IIR_VOL
  | COMB1_VOL
  | COMB2_VOL
  | COMB3_VOL
  | COMB4_VOL
  | WALL_VOL
  | APF1_VOL
  | APF2_VOL
  | IN_COEF_L
  | IN_COEF_R
  deriving DecidableEq

/-- `V_CoreRegs` -/
inductive CoreRegs
  | PMON
  | NON
  | VMIXL
  | VMIXR
  | VMIXEL
  | VMIXER
  | ENDX
  | MMIX
  | STATX
  | ATTR
  deriving DecidableEq

/-- `V_Core` -/
inductive CoreCell
  | Voices (voice : Fin 24) (f : VoiceCell)
  | VoiceGates (voice : Fin 24) (g : VoiceGate)
  | DryGate (g : CoreGate)
  | WetGate (g : CoreGate)
  | MasterVol (side : Side) (f : SlideCell)
  | ExtVol (side : Side)
  | InpVol (side : Side)
  | FxVol (side : Side)
  | IRQA
  | TSA
  | IRQEnable
  | FxEnable
  | Mute
  | AdmaInProgress
  | AttrBit0
  | DMABits
  | DmaMode
  | NoiseClk
  | AutoDMACtrl
  | Revb (r : RevbAddr)
  | RevbVols (r : RevbVol)
  | NeedsUpdated
  | EffectsStartA
  | EffectsEndA
  | ExtEffectsStartA
  | ExtEffectsEndA
  | ReverbX
  | Regs (r : CoreRegs)
  | KeyOn
  deriving DecidableEq

/-- `V_SPDIF` -/
inductive SpdifCell
  | Out
  | Info
  | Unknown1
  | Mode
  | Media
  | Unknown2
  | Protection
  deriving DecidableEq

/-- The variables that register writes reach. -/
inductive Cell
  | Cores (core : Fin 2) (f : CoreCell)
  | Spdif (f : SpdifCell)
  | spu2regs (i : Nat)
  | spu2mem (addr : Nat)
  | Validated (block : Nat)
  | psxmode
  | PlayMode
  | has_to_call_irq
  | Cycles
  deriving DecidableEq

/-- What the variables hold, in the low bits where they are not as wide. -/
abbrev State := Cell → BitVec 32

namespace State

def set (s : State) (c : Cell) (v : BitVec 32) : State := Function.update s c v

/-- Assignments to the variables for which there is a value. -/
def assign (s : State) (f : Cell → Option (BitVec 32)) : State := fun c => (f c).getD (s c)

end State

inductive Half
  | lo
  | hi
  deriving DecidableEq

/-- `SetHiWord`, `SetLoWord` -/
def Half.put (h : Half) (src : BitVec 32) (value : BitVec 16) : BitVec 32 :=
  match h with
  | lo => src.extractLsb' 16 16 ++ value
  | hi => value ++ src.extractLsb' 0 16

/-- `GetHiWord`, `GetLoWord` -/
def Half.get (h : Half) (src : BitVec 32) : BitVec 16 :=
  match h with
  | lo => src.extractLsb' 0 16
  | hi => src.extractLsb' 16 16

/-- A pointer to half a variable. -/
structure U16P where
  cell : Cell
  half : Half := .lo
  deriving DecidableEq

namespace U16P

def write (p : U16P) (s : State) (value : BitVec 16) : State :=
  s.set p.cell (p.half.put (s p.cell) value)

def read (p : U16P) (s : State) : BitVec 16 := p.half.get (s p.cell)

end U16P

/-- `PCORE(c, p)` -/
def PCORE (core : Fin 2) (f : CoreCell) (half : Half := .lo) : Option U16P :=
  some ⟨.Cores core f, half⟩

/-- `PVC(c, v)` -/
def PVC (core : Fin 2) (voice : Fin 24) : List (Option U16P) :=
  [PCORE core (.Voices voice (.Volume .Left .Reg_VOL)),
    PCORE core (.Voices voice (.Volume .Right .Reg_VOL)),
    PCORE core (.Voices voice .Pitch),
    PCORE core (.Voices voice .regADSR1),
    PCORE core (.Voices voice .regADSR2),
    PCORE core (.Voices voice .ADSRValue) .hi,
    PCORE core (.Voices voice (.Volume .Left .Value)) .hi,
    PCORE core (.Voices voice (.Volume .Right .Value)) .hi]

/-- `PVCA(c, v)` -/
def PVCA (core : Fin 2) (voice : Fin 24) : List (Option U16P) :=
  [PCORE core (.Voices voice .StartA) .hi, PCORE core (.Voices voice .StartA),
    PCORE core (.Voices voice .LoopStartA) .hi, PCORE core (.Voices voice .LoopStartA),
    PCORE core (.Voices voice .NextA) .hi, PCORE core (.Voices voice .NextA)]

/-- `PREVB_REG(c, n)` -/
def PREVB_REG (core : Fin 2) (r : RevbAddr) : List (Option U16P) :=
  [PCORE core (.Revb r) .hi, PCORE core (.Revb r)]

/-- The addresses of the reverb, in the order of their registers. -/
def RevbAddr.all : List RevbAddr :=
  [APF1_SIZE, APF2_SIZE, SAME_L_DST, SAME_R_DST, COMB1_L_SRC, COMB1_R_SRC, COMB2_L_SRC,
    COMB2_R_SRC, SAME_L_SRC, SAME_R_SRC, DIFF_L_DST, DIFF_R_DST, COMB3_L_SRC, COMB3_R_SRC,
    COMB4_L_SRC, COMB4_R_SRC, DIFF_L_SRC, DIFF_R_SRC, APF1_L_DST, APF1_R_DST, APF2_L_DST,
    APF2_R_DST]

def RevbVol.all : List RevbVol :=
  [IIR_VOL, COMB1_VOL, COMB2_VOL, COMB3_VOL, COMB4_VOL, WALL_VOL, APF1_VOL, APF2_VOL, IN_COEF_L,
    IN_COEF_R]

/-- The entries of `regtable_original` from `0x000` to `0x344`, and from `0x400` to `0x744`. -/
def coreTable (core : Fin 2) : List (Option U16P) :=
  (List.finRange 24).flatMap (PVC core) ++
  [PCORE core (.Regs .PMON), PCORE core (.Regs .PMON) .hi,
    PCORE core (.Regs .NON), PCORE core (.Regs .NON) .hi,
    PCORE core (.Regs .VMIXL), PCORE core (.Regs .VMIXL) .hi,
    PCORE core (.Regs .VMIXEL), PCORE core (.Regs .VMIXEL) .hi,
    PCORE core (.Regs .VMIXR), PCORE core (.Regs .VMIXR) .hi,
    PCORE core (.Regs .VMIXER), PCORE core (.Regs .VMIXER) .hi,
    PCORE core (.Regs .MMIX), PCORE core (.Regs .ATTR),
    PCORE core .IRQA .hi, PCORE core .IRQA,
    none, none, none, none,
    PCORE core .TSA .hi, PCORE core .TSA,
    none, none,
    PCORE core .AutoDMACtrl] ++
  List.replicate 7 none ++
  (List.finRange 24).flatMap (PVCA core) ++
  [PCORE core .ExtEffectsStartA .hi, PCORE core .ExtEffectsStartA] ++
  RevbAddr.all.flatMap (PREVB_REG core) ++
  [PCORE core .ExtEffectsEndA .hi, PCORE core .ExtEffectsEndA,
    PCORE core (.Regs .ENDX), PCORE core (.Regs .ENDX) .hi,
    PCORE core (.Regs .STATX)]

/-- The entries from `0x760`, and from `0x788`. -/
def extTable (core : Fin 2) : List (Option U16P) :=
  [PCORE core (.MasterVol .Left .Reg_VOL), PCORE core (.MasterVol .Right .Reg_VOL),
    PCORE core (.FxVol .Left) .hi, PCORE core (.FxVol .Right) .hi,
    PCORE core (.ExtVol .Left) .hi, PCORE core (.ExtVol .Right) .hi,
    PCORE core (.InpVol .Left) .hi, PCORE core (.InpVol .Right) .hi,
    PCORE core (.MasterVol .Left .Value) .hi, PCORE core (.MasterVol .Right .Value) .hi] ++
  RevbVol.all.map fun r => PCORE core (.RevbVols r)

def spdifTable : List (Option U16P) :=
  [SpdifCell.Out, .Info, .Unknown1, .Mode, .Media, .Unknown2, .Protection].map fun f =>
    some ⟨.Spdif f, .lo⟩

def regtable_original : List (Option U16P) :=
  coreTable 0 ++ List.replicate 93 none ++ coreTable 1 ++ List.replicate 13 none ++
    extTable 0 ++ extTable 1 ++ List.replicate 8 none ++ spdifTable ++ List.replicate 25 none

/-- `regtable`: entries without a variable are the registers' own memory. -/
def regtable (i : Nat) : U16P := (regtable_original[i]?.join).getD ⟨.spu2regs i, .lo⟩

end OmegaRed.Spu2.Registers
