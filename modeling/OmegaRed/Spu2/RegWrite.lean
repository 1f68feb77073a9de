import OmegaRed.Spu2.Registers

/-! `SPU2_FastWrite`: the handlers of register writes and the table of them. -/

namespace OmegaRed.Spu2.Registers

/-- `GetVol32` -/
def GetVol32 (src : BitVec 16) : BitVec 32 := src ++ (src <<< 1)

/-- What a write to a volume register leaves in a `V_VolumeSlide`. -/
def slideWrite (value : BitVec 16) : SlideCell → Option (BitVec 32)
  | .Reg_VOL => some (value.setWidth 32)
  | .Value => if value &&& 0x8000 ≠ 0 then none else some (GetVol32 (value <<< 1))
  | .Increment => some (if value &&& 0x8000 ≠ 0 then (value &&& 0x7f).setWidth 32 else 0)
  | .Mode => some (if value &&& 0x8000 ≠ 0 then ((value &&& 0xf000) >>> 12).setWidth 32 else 0)

/-- `RegWrite_VoiceParams` -/
def RegWrite_VoiceParams (core : Fin 2) (voice : Fin 24) (param : Fin 8) (s : State)
    (value : BitVec 16) : State :=
  match param with
  | 0 => s.assign fun
    | .Cores c (.Voices v (.Volume .Left f)) =>
      if c = core ∧ v = voice then slideWrite value f else none
    | _ => none
  | 1 => s.assign fun
    | .Cores c (.Voices v (.Volume .Right f)) =>
      if c = core ∧ v = voice then slideWrite value f else none
    | _ => none
  | 2 => s.set (.Cores core (.Voices voice .Pitch)) ((value &&& 0x3fff).setWidth 32)
  | 3 => s.set (.Cores core (.Voices voice .regADSR1)) (value.setWidth 32)
  | 4 => s.set (.Cores core (.Voices voice .regADSR2)) (value.setWidth 32)
  | _ => s

/-- `RegWrite_VoiceAddr` -/
def RegWrite_VoiceAddr (core : Fin 2) (voice : Fin 24) (address : Fin 6) (s : State)
    (value : BitVec 16) : State :=
  let StartA := Cell.Cores core (.Voices voice .StartA)
  let LoopStartA := Cell.Cores core (.Voices voice .LoopStartA)
  let LoopMode := Cell.Cores core (.Voices voice .LoopMode)
  match address with
  | 0 => s.set StartA ((value.setWidth 32 &&& 0x0f) <<< 16 ||| s StartA &&& 0xfff8)
  | 1 => s.set StartA (s StartA &&& 0x0f0000 ||| value.setWidth 32 &&& 0xfff8)
  | 2 => (s.set LoopStartA ((value.setWidth 32 &&& 0x0f) <<< 16 ||| s LoopStartA &&& 0xfff8)).set
      LoopMode 1
  | 3 => (s.set LoopStartA (s LoopStartA &&& 0x0f0000 ||| value.setWidth 32 &&& 0xfff8)).set
      LoopMode 1
  | _ => s

/-- The registers of a core below `0x346` that are not those of a voice. -/
inductive CoreReg
  | REG_S_PMON
  | REG_S_NON
  | REG_S_VMIXL
  | REG_S_VMIXEL
  | REG_S_VMIXR
  | REG_S_VMIXER
  | REG_P_MMIX
  | REG_C_ATTR
  | REG_A_IRQA
  | REG_S_KON
  | REG_S_KOFF
  | REG_A_TSA
  | REG__1AC
  | REG_S_ADMAS
  | REG_A_ESA
  | R (r : RevbAddr)
  | REG_A_EEA
  | REG_S_ENDX
  | REG_P_STATX
  deriving DecidableEq

/-- `R_APF1_SIZE` to `R_APF2_R_DST` -/
def RevbAddr.mem : RevbAddr → Nat
  | APF1_SIZE => 0x2e4
  | APF2_SIZE => 0x2e8
  | SAME_L_DST => 0x2ec
  | SAME_R_DST => 0x2f0
  | COMB1_L_SRC => 0x2f4
  | COMB1_R_SRC => 0x2f8
  | COMB2_L_SRC => 0x2fc
  | COMB2_R_SRC => 0x300
  | SAME_L_SRC => 0x304
  | SAME_R_SRC => 0x308
  | DIFF_L_DST => 0x30c
  | DIFF_R_DST => 0x310
  | COMB3_L_SRC => 0x314
  | COMB3_R_SRC => 0x318
  | COMB4_L_SRC => 0x31c
  | COMB4_R_SRC => 0x320
  | DIFF_L_SRC => 0x324
  | DIFF_R_SRC => 0x328
  | APF1_L_DST => 0x32c
  | APF1_R_DST => 0x330
  | APF2_L_DST => 0x334
  | APF2_R_DST => 0x338

def CoreReg.mem : CoreReg → Nat
  | REG_S_PMON => 0x180
  | REG_S_NON => 0x184
  | REG_S_VMIXL => 0x188
  | REG_S_VMIXEL => 0x18c
  | REG_S_VMIXR => 0x190
  | REG_S_VMIXER => 0x194
  | REG_P_MMIX => 0x198
  | REG_C_ATTR => 0x19a
  | REG_A_IRQA => 0x19c
  | REG_S_KON => 0x1a0
  | REG_S_KOFF => 0x1a4
  | REG_A_TSA => 0x1a8
  | REG__1AC => 0x1ac
  | REG_S_ADMAS => 0x1b0
  | REG_A_ESA => 0x2e0
  | R r => r.mem
  | REG_A_EEA => 0x33c
  | REG_S_ENDX => 0x340
  | REG_P_STATX => 0x344

/-- `delayCycles`, as it is configured. -/
def delayCycles : BitVec 32 := 4

/-- `SetIrqCall` -/
def SetIrqCall (s : State) (core : Fin 2) : State :=
  if s (.Spdif .Info) &&& 4#32 <<< core.val ≠ 0 then s
  else (s.set (.Spdif .Info) (s (.Spdif .Info) ||| 4#32 <<< core.val)).set .has_to_call_irq 1

/-- `spu2M_Write` -/
def spu2M_Write (s : State) (addr : BitVec 32) (value : BitVec 16) : State :=
  let addr := (addr &&& 0xfffff).toNat
  let s := if 0x2800 ≤ addr then s.set (.Validated (addr / 8)) 0 else s
  s.set (.spu2mem addr) (value.setWidth 32)

/-- `DmaWrite` -/
def DmaWrite (core : Fin 2) (s : State) (value : BitVec 16) : State :=
  let TSA := s (.Cores core .TSA)
  (spu2M_Write s TSA value).set (.Cores core .TSA) ((TSA + 1) &&& 0xfffff)

/-- `(value >> vc) & 1` -/
def bit (value : BitVec 32) (vc : Nat) : BitVec 32 := (value >>> vc) &&& 1

/-- The two halves of a register with a bit for each voice, and the first voice of a half. -/
def Half.start : Half → Nat
  | lo => 0
  | hi => 16

def Half.stop : Half → Nat
  | lo => 16
  | hi => 24

/-- Whether a voice has its bit in a half. -/
def Half.has (h : Half) (voice : Fin 24) : Prop := h.start ≤ voice ∧ voice < h.stop

instance (h : Half) (voice : Fin 24) : Decidable (h.has voice) :=
  inferInstanceAs (Decidable (_ ∧ _))

/-- `vx_SetSomeBits` -/
def vx_SetSomeBits (core : Fin 2) (reg_out : CoreRegs) (mask_out : VoiceGate) (half : Half)
    (s : State) (value : BitVec 16) : State :=
  let result := s (.Cores core (.Regs reg_out))
  let s := s.set (.Cores core (.Regs reg_out)) (half.put result value)
  if result = s (.Cores core (.Regs reg_out)) then s
  else s.assign fun
    | .Cores c (.VoiceGates v g) =>
      if c = core ∧ g = mask_out ∧ half.has v then
        some (if bit (value.setWidth 32) (v - half.start) ≠ 0 then 0xffff else 0)
      else none
    | _ => none

/-- `StartVoices`, with `QueueStart`. -/
def StartVoices (core : Fin 2) (s : State) (value : BitVec 32) : State :=
  if value = 0 then s
  else
    let ENDX := Cell.Cores core (.Regs .ENDX)
    let KeyOn := Cell.Cores core .KeyOn
    ((s.set ENDX (s ENDX &&& ~~~value)).set KeyOn (s KeyOn ||| value)).assign fun
      | .Cores c (.Voices v .PlayCycle) =>
        if c = core ∧ bit value v ≠ 0 ∧
            ¬ s .Cycles - s (.Cores core (.Voices v .PlayCycle)) < delayCycles then
          some (s .Cycles)
        else none
      | _ => none

/-- `StopVoices` -/
def StopVoices (core : Fin 2) (s : State) (value : BitVec 32) : State :=
  s.assign fun
    | .Cores c (.Voices v .Releasing) => if c = core ∧ bit value v ≠ 0 then some 1 else none
    | _ => none

/-- A half of a register with a bit for each voice, and the variable of each voice. -/
def voiceBits (core : Fin 2) (reg : CoreRegs) (f : VoiceCell) (first : Nat) (half : Half)
    (s : State) (value : BitVec 16) : State :=
  (s.assign fun
    | .Cores c (.Voices v g) =>
      if c = core ∧ g = f ∧ half.has v ∧ first ≤ v then
        some (bit (value.setWidth 32) (v - half.start))
      else none
    | _ => none).set (.Cores core (.Regs reg)) (half.put (s (.Cores core (.Regs reg))) value)

/-- The effects area is what was written last, if the effects are off. -/
def updateArea (core : Fin 2) (inner ext : CoreCell) (s : State) : State :=
  if s (.Cores core .FxEnable) = 0 then
    ((s.set (.Cores core inner) (s (.Cores core ext))).set (.Cores core .ReverbX) 0).set
      (.Cores core .NeedsUpdated) 1
  else s

/-- The case of `REG_C_ATTR`. -/
def writeATTR (core : Fin 2) (s : State) (value : BitVec 16) : State :=
  let v := value.setWidth 32
  let old (f : CoreCell) := s (.Cores core f)
  let IRQEnable := bit v 6
  let FxEnable := bit v 7
  let DmaMode := (v >>> 4) &&& 0x03
  let STATX := if v >>> 15 ≠ 0 then 0 else old (.Regs .STATX)
  let STATX := if old .DmaMode ≠ DmaMode then STATX &&& ~~~0x400#32 else STATX
  let area := old .FxEnable ≠ 0 ∧ FxEnable = 0 ∧
    (old .EffectsStartA ≠ old .ExtEffectsStartA ∨ old .EffectsEndA ≠ old .ExtEffectsEndA)
  s.assign fun
    | .Cores c f =>
      if c = core then
        match f with
        | .AttrBit0 => some (bit v 0)
        | .DMABits => some ((v >>> 1) &&& 0x07)
        | .DmaMode => some DmaMode
        | .IRQEnable => some IRQEnable
        | .FxEnable => some FxEnable
        | .NoiseClk => some ((v >>> 8) &&& 0x3f)
        | .Mute => some 0
        | .Regs .STATX => some STATX
        | .Regs .ATTR => some (v &&& 0x7fff)
        | .EffectsStartA => if area then some (old .ExtEffectsStartA) else none
        | .EffectsEndA => if area then some (old .ExtEffectsEndA) else none
        | .ReverbX => if area then some 0 else none
        | .NeedsUpdated => if area then some 1 else none
        | _ => none
      else none
    | .Spdif .Info =>
      if IRQEnable ≠ old .IRQEnable ∧ IRQEnable = 0 then
        some (s (.Spdif .Info) &&& ~~~(4#32 <<< core.val))
      else none
    | _ => none

/-- The case of `REG_P_MMIX`. -/
def writeMMIX (core : Fin 2) (s : State) (value : BitVec 16) : State :=
  let vx := value.setWidth 32 &&& if core = 0 then 0xff0 else 0xfff
  let gate (mask : BitVec 32) : Option (BitVec 32) := some (if vx &&& mask ≠ 0 then 0xffff else 0)
  s.assign fun
    | .Cores c f =>
      if c = core then
        match f with
        | .WetGate (.Ext .Right) => gate 0x001
        | .WetGate (.Ext .Left) => gate 0x002
        | .DryGate (.Ext .Right) => gate 0x004
        | .DryGate (.Ext .Left) => gate 0x008
        | .WetGate (.Inp .Right) => gate 0x010
        | .WetGate (.Inp .Left) => gate 0x020
        | .DryGate (.Inp .Right) => gate 0x040
        | .DryGate (.Inp .Left) => gate 0x080
        | .WetGate (.Snd .Right) => gate 0x100
        | .WetGate (.Snd .Left) => gate 0x200
        | .DryGate (.Snd .Right) => gate 0x400
        | .DryGate (.Snd .Left) => gate 0x800
        | .Regs .MMIX => some (value.setWidth 32)
        | _ => none
      else none
    | _ => none

/-- The switch to PS1 mode: core 1 is silenced and its effects area parked. -/
def psxSwitch (s : State) : State :=
  s.assign fun
    | .psxmode => some 1
    | .Cores 0 f =>
      match f with
      | .ReverbX => some 0
      | .NeedsUpdated => some 1
      | _ => none
    | .Cores 1 f =>
      match f with
      | .FxEnable => some 0
      | .EffectsStartA => some 0x7fff8
      | .EffectsEndA => some 0x7ffff
      | .ExtEffectsStartA => some 0x7fff8
      | .ExtEffectsEndA => some 0x7ffff
      | .ReverbX => some 0
      | .NeedsUpdated => some 1
      | .Voices _ (.Volume _ _) => some 0
      | .Voices _ .SCurrent => some 28
      | .Voices _ .ADSRValue => some 0
      | .Voices _ .Phase => some 0
      | .Voices _ .Pitch => some 0
      | .Voices _ .NextA => some 0x6ffff
      | .Voices _ .StartA => some 0x6ffff
      | .Voices _ .LoopStartA => some 0x6ffff
      | .Voices _ .Modulated => some 0
      | _ => none
    | _ => none

/-- The case of `REG_S_ADMAS`. -/
def writeADMAS (core : Fin 2) (s : State) (value : BitVec 16) : State :=
  if value = 32767 then psxSwitch s
  else
    let s := s.set (.Cores core .AutoDMACtrl) (value.setWidth 32)
    if value = 0 then s.set (.Cores core .AdmaInProgress) 0 else s

/-- The address of a half register: the second half is two bytes further. -/
def CoreReg.omem (reg : CoreReg) (second : Bool) : Nat := reg.mem + if second then 2 else 0

/-- `RegWrite_Core` -/
def RegWrite_Core (core : Fin 2) (reg : CoreReg) (second : Bool) (s : State)
    (value : BitVec 16) : State :=
  let half : Half := if second then .hi else .lo
  let mirror (s : State) : State :=
    s.set (.spu2regs (reg.omem second >>> 1 ||| core.val * 0x200)) (value.setWidth 32)
  let default : State :=
    (regtable ((reg.omem second ||| if core = 1 then 0x400 else 0) >>> 1)).write s value
  match reg, second with
  | .REG__1AC, false =>
    let TSA := s (.Cores core .TSA)
    let check (s : State) (i : Fin 2) : State :=
      if s (.Cores i .IRQEnable) ≠ 0 ∧ s (.Cores i .IRQA) = TSA then SetIrqCall s i else s
    DmaWrite core (check (check s 0) 1) value
  | .REG_C_ATTR, false => writeATTR core s value
  | .REG_S_PMON, _ => voiceBits core .PMON .Modulated 1 half s value
  | .REG_S_NON, _ => voiceBits core .NON .Noise 0 half s value
  | .REG_S_VMIXL, _ => vx_SetSomeBits core .VMIXL .DryL half s value
  | .REG_S_VMIXEL, _ => vx_SetSomeBits core .VMIXEL .WetL half s value
  | .REG_S_VMIXR, _ => vx_SetSomeBits core .VMIXR .DryR half s value
  | .REG_S_VMIXER, _ => vx_SetSomeBits core .VMIXER .WetR half s value
  | .REG_P_MMIX, false => writeMMIX core s value
  | .REG_S_KON, true => mirror (StartVoices core s (value.setWidth 32 <<< 16))
  | .REG_S_KON, false => mirror (StartVoices core s (value.setWidth 32))
  | .REG_S_KOFF, true => mirror (StopVoices core s (value.setWidth 32 <<< 16))
  | .REG_S_KOFF, false => mirror (StopVoices core s (value.setWidth 32))
  | .REG_S_ENDX, false =>
    s.set (.Cores core (.Regs .ENDX)) (s (.Cores core (.Regs .ENDX)) &&& 0xff0000)
  | .REG_S_ENDX, true =>
    s.set (.Cores core (.Regs .ENDX)) (s (.Cores core (.Regs .ENDX)) &&& 0xffff)
  | .REG_A_ESA, false =>
    updateArea core .EffectsStartA .ExtEffectsStartA
      (U16P.write ⟨.Cores core .ExtEffectsStartA, .hi⟩ s value)
  | .REG_A_ESA, true =>
    updateArea core .EffectsStartA .ExtEffectsStartA
      (U16P.write ⟨.Cores core .ExtEffectsStartA, .lo⟩ s value)
  | .REG_A_EEA, false =>
    updateArea core .EffectsEndA .ExtEffectsEndA
      (s.set (.Cores core .ExtEffectsEndA) (value ++ 0xffff#16))
  | .REG_S_ADMAS, false => writeADMAS core s value
  | _, _ => default

/-- The registers of a core in the area from `0x760`. -/
inductive ExtReg
  | REG_P_MVOL (side : Side)
  | REG_P_EVOL (side : Side)
  | REG_P_AVOL (side : Side)
  | REG_P_BVOL (side : Side)
  | REG_P_MVOLX (side : Side)
  | R (r : RevbVol)
  deriving DecidableEq

def Side.offset : Side → Nat
  | Left => 0
  | Right => 2

/-- `R_IIR_VOL` to `R_IN_COEF_R` -/
def RevbVol.mem : RevbVol → Nat
  | IIR_VOL => 0x774
  | COMB1_VOL => 0x776
  | COMB2_VOL => 0x778
  | COMB3_VOL => 0x77a
  | COMB4_VOL => 0x77c
  | WALL_VOL => 0x77e
  | APF1_VOL => 0x780
  | APF2_VOL => 0x782
  | IN_COEF_L => 0x784
  | IN_COEF_R => 0x786

def ExtReg.mem : ExtReg → Nat
  | REG_P_MVOL side => 0x760 + side.offset
  | REG_P_EVOL side => 0x764 + side.offset
  | REG_P_AVOL side => 0x768 + side.offset
  | REG_P_BVOL side => 0x76c + side.offset
  | REG_P_MVOLX side => 0x770 + side.offset
  | R r => r.mem

/-- `RegWrite_CoreExt` -/
def RegWrite_CoreExt (core : Fin 2) (addr : ExtReg) (s : State) (value : BitVec 16) : State :=
  match addr with
  | .REG_P_MVOL side => s.assign fun
    | .Cores c (.MasterVol d f) => if c = core ∧ d = side then slideWrite value f else none
    | _ => none
  | .REG_P_EVOL side => s.set (.Cores core (.FxVol side)) (GetVol32 value)
  | .REG_P_AVOL side => s.set (.Cores core (.ExtVol side)) (GetVol32 value)
  | .REG_P_BVOL side => s.set (.Cores core (.InpVol side)) (GetVol32 value)
  | .REG_P_MVOLX _ => s
  | .R _ => (regtable ((addr.mem + if core = 1 then 0x28 else 0) >>> 1)).write s value

/-- `RegWrite_Reverb`, which does not use the core. -/
def RegWrite_Reverb (_core : Fin 2) (r : RevbAddr) (s : State) (value : BitVec 16) : State :=
  (regtable (r.mem >>> 1)).write s value

/-- The registers with an effect of the SPDIF interface. -/
inductive SpdifReg
  | SPDIF_OUT
  | SPDIF_IRQINFO
  | SPDIF_MODE
  | SPDIF_MEDIA
  | SPDIF_PROTECT
  deriving DecidableEq

def SpdifReg.mem : SpdifReg → Nat
  | SPDIF_OUT => 0x7c0
  | SPDIF_IRQINFO => 0x7c2
  | SPDIF_MODE => 0x7c6
  | SPDIF_MEDIA => 0x7c8
  | SPDIF_PROTECT => 0x7cc

/-- `UpdateSpdifMode` -/
def UpdateSpdifMode (s : State) : State :=
  s.set .PlayMode <|
    if s (.Spdif .Out) &&& 0x4 ≠ 0 then 8
    else if s (.Spdif .Out) &&& 0x100 ≠ 0 then
      if s (.Spdif .Mode) &&& 0x2 = 0 then 4 else 2
    else if s (.Spdif .Out) &&& 0x20 ≠ 0 then 1 else 0

/-- `RegWrite_SPDIF` -/
def RegWrite_SPDIF (r : SpdifReg) (s : State) (value : BitVec 16) : State :=
  UpdateSpdifMode ((regtable (r.mem >>> 1)).write s value)

/-- `RegWrite_Raw` -/
def RegWrite_Raw (addr : Nat) (s : State) (value : BitVec 16) : State :=
  (regtable (addr >>> 1)).write s value

inductive Handler
  | VoiceParams (core : Fin 2) (voice : Fin 24) (param : Fin 8)
  | VoiceAddr (core : Fin 2) (voice : Fin 24) (address : Fin 6)
  | Core (core : Fin 2) (reg : CoreReg) (second : Bool)
  | CoreExt (core : Fin 2) (addr : ExtReg)
  | Reverb (core : Fin 2) (r : RevbAddr)
  | SPDIF (r : SpdifReg)
  | Raw (addr : Nat)
  | Null
  deriving DecidableEq

def Handler.write : Handler → State → BitVec 16 → State
  | VoiceParams core voice param => RegWrite_VoiceParams core voice param
  | VoiceAddr core voice address => RegWrite_VoiceAddr core voice address
  | Core core reg second => RegWrite_Core core reg second
  | CoreExt core addr => RegWrite_CoreExt core addr
  | Reverb core r => RegWrite_Reverb core r
  | SPDIF r => RegWrite_SPDIF r
  | Raw addr => RegWrite_Raw addr
  | Null => fun s _ => s

/-- `CoreParamsPair` -/
def CoreParamsPair (core : Fin 2) (reg : CoreReg) : List Handler :=
  [.Core core reg false, .Core core reg true]

/-- `ReverbPair` -/
def ReverbPair (core : Fin 2) (r : RevbAddr) : List Handler :=
  [.Reverb core r, .Core core (.R r) true]

/-- `REGRAW` of the words from an address. -/
def REGRAW (addr count : Nat) : List Handler := (List.range' addr count 2).map .Raw

/-- The handlers of a core up to `0x346`; the order of the reverb registers is given for each. -/
def coreWrites (core : Fin 2) (reverb : List RevbAddr) : List Handler :=
  ((List.finRange 24).flatMap fun v => (List.finRange 8).map (.VoiceParams core v) :
    List Handler) ++
  CoreParamsPair core .REG_S_PMON ++ CoreParamsPair core .REG_S_NON ++
  CoreParamsPair core .REG_S_VMIXL ++ CoreParamsPair core .REG_S_VMIXEL ++
  CoreParamsPair core .REG_S_VMIXR ++ CoreParamsPair core .REG_S_VMIXER ++
  ([.Core core .REG_P_MMIX false, .Core core .REG_C_ATTR false] : List Handler) ++
  CoreParamsPair core .REG_A_IRQA ++ CoreParamsPair core .REG_S_KON ++
  CoreParamsPair core .REG_S_KOFF ++ CoreParamsPair core .REG_A_TSA ++
  CoreParamsPair core .REG__1AC ++
  ([.Core core .REG_S_ADMAS false] : List Handler) ++ REGRAW (0x1b2 + core.val * 0x400) 7 ++
  ((List.finRange 24).flatMap fun v => (List.finRange 6).map (.VoiceAddr core v) :
    List Handler) ++
  CoreParamsPair core .REG_A_ESA ++ reverb.flatMap (ReverbPair core) ++
  ([.Core core .REG_A_EEA false, .Null] : List Handler) ++ CoreParamsPair core .REG_S_ENDX ++
  ([.Core core .REG_P_STATX false] : List Handler)

def extWrites (core : Fin 2) : List Handler :=
  ([.CoreExt core (.REG_P_MVOL .Left), .CoreExt core (.REG_P_MVOL .Right),
    .CoreExt core (.REG_P_EVOL .Left), .CoreExt core (.REG_P_EVOL .Right),
    .CoreExt core (.REG_P_AVOL .Left), .CoreExt core (.REG_P_AVOL .Right),
    .CoreExt core (.REG_P_BVOL .Left), .CoreExt core (.REG_P_BVOL .Right),
    .CoreExt core (.REG_P_MVOLX .Left), .CoreExt core (.REG_P_MVOLX .Right)] : List Handler) ++
  (RevbVol.all.map fun r => .CoreExt core (.R r) : List Handler)

/-- The reverb registers in the order of the second core's table, which has two of them swapped. -/
def reverbOfCore1 : List RevbAddr :=
  [.APF1_SIZE, .APF2_SIZE, .SAME_L_DST, .SAME_R_DST, .COMB1_L_SRC, .COMB1_R_SRC, .COMB2_L_SRC,
    .COMB2_R_SRC, .SAME_L_SRC, .SAME_R_SRC, .DIFF_L_DST, .DIFF_R_DST, .COMB3_L_SRC, .COMB3_R_SRC,
    .COMB4_L_SRC, .COMB4_R_SRC, .DIFF_R_SRC, .DIFF_L_SRC, .APF1_L_DST, .APF1_R_DST, .APF2_L_DST,
    .APF2_R_DST]

def tbl_reg_writes : List Handler :=
  coreWrites 0 RevbAddr.all ++ REGRAW 0x346 93 ++
  coreWrites 1 reverbOfCore1 ++ REGRAW 0x746 13 ++
  extWrites 0 ++ extWrites 1 ++ REGRAW 0x7b0 8 ++
  ([.SPDIF .SPDIF_OUT, .SPDIF .SPDIF_IRQINFO] : List Handler) ++ REGRAW 0x7c4 1 ++
  ([.SPDIF .SPDIF_MODE, .SPDIF .SPDIF_MEDIA] : List Handler) ++ REGRAW 0x7ca 1 ++
  ([.SPDIF .SPDIF_PROTECT] : List Handler) ++ REGRAW 0x7ce 25

/-- `SPU2_FastWrite` -/
def SPU2_FastWrite (s : State) (rmem : Nat) (value : BitVec 16) : State :=
  (tbl_reg_writes[rmem % 0x800 / 2]?.getD .Null).write s value

end OmegaRed.Spu2.Registers
