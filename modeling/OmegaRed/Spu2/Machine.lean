import OmegaRed.Spu2.Mixer

/-! The two cores: mixing a voice, register writes, key on and off, and writes to the memory. -/

namespace OmegaRed.Spu2

/-- The user's settings. -/
structure Config where
  Interpolation : Nat
  delayCycles : BitVec 32

/-- `V_Core`, as far as the voices depend on it. -/
structure Core where
  Voices : Fin 24 → Voice
  IRQA : Nat
  TSA : Nat
  IRQEnable : Bool
  KeyOn : BitVec 32
  ENDX : BitVec 32

structure State (β : Type) where
  Cores : Fin 2 → Core
  mem : Mem
  irq : Irq
  Cycles : BitVec 32
  OutPos : Nat
  Seed : BitVec 32
  buf : β

/-- `V_Core::Init` -/
def Core.init : Core where
  Voices := fun _ => Voice.init
  IRQA := 0x800
  TSA := 0
  IRQEnable := false
  KeyOn := 0
  ENDX := 0xffffff

namespace State

variable {β : Type}

/-- `SPU2reset` in a process that has just started. -/
def reset (buf : β) : State β where
  Cores := fun _ => Core.init
  mem := fun a => if 0x2800 ≤ a ∧ a < 0x2808 then 0x0707 else 0
  irq := ⟨0, false⟩
  Cycles := 0
  OutPos := 0
  Seed := 0x41595321
  buf := buf

def voice (s : State β) (id : VoiceId) : Voice := (s.Cores id.1).Voices id.2

def setCore (s : State β) (core : Fin 2) (c : Core) : State β :=
  { s with Cores := Function.update s.Cores core c }

def setVoice (s : State β) (id : VoiceId) (vc : Voice) : State β :=
  s.setCore id.1
    { s.Cores id.1 with Voices := Function.update (s.Cores id.1).Voices id.2 vc }

def bus (s : State β) : Bus where
  mem := s.mem
  IRQEnable := fun i => (s.Cores i).IRQEnable
  IRQA := fun i => (s.Cores i).IRQA

def walk (s : State β) (id : VoiceId) (vc : Voice) : Walk β :=
  ⟨vc, (s.Cores id.1).ENDX, s.irq, s.buf⟩

/-- The state after a voice was stepped. -/
def settle (s : State β) (id : VoiceId) (w : Walk β) : State β :=
  let s := s.setCore id.1 { s.Cores id.1 with ENDX := w.ENDX }
  { s.setVoice id w.vc with irq := w.irq, buf := w.buf }

/-- A store that leaves the decoded samples alone: of the mixer, of the reverb and of AutoDMA. -/
def store (s : State β) (addr : Nat) (value : BitVec 16) : State β :=
  { s with mem := Function.update s.mem addr value }

/-- `SetIrqCall` for the cores whose interrupt address is hit. -/
def testIrq (s : State β) (hit : Nat → Bool) : State β := { s with irq := s.bus.testIrq hit s.irq }

/-- `spu2M_WriteFast` -/
def writeFast (s : State β) (addr : Nat) (value : Int) : State β :=
  (s.testIrq (· == addr)).store addr (BitVec.ofInt 16 value)

/-- What `UpdatePitch` adds. -/
def pitch (s : State β) (id : VoiceId) : Int :=
  let vc := s.voice id
  if !vc.Modulated || id.2 == 0 then vc.Pitch
  else
    let OutX := ((s.Cores id.1).Voices (id.2 - 1)).OutX
    getClamped (vc.Pitch * (32768 + OutX) / 2 ^ 15) 0 0x3fff

/-- The voice as `MixVoice` has it before it reads samples. -/
def prepared (s : State β) (id : VoiceId) : Voice :=
  let vc := s.voice id
  { vc with
    VolumeL := vc.VolumeL.update, VolumeR := vc.VolumeR.update
    SP := wrap32 (vc.SP + s.pitch id) }

/-- Where `MixVoice` writes back the raw data of the second and the fourth voice. -/
def writeBack (id : VoiceId) : Option Nat :=
  if id.2 = 1 then some (if id.1 = 0 then 0x400 else 0xc00)
  else if id.2 = 3 then some (if id.1 = 0 then 0x600 else 0xe00)
  else none

def writeOutX (s : State β) (id : VoiceId) (OutX : Int) : State β :=
  match writeBack id with
  | some addr => s.writeFast (addr + s.OutPos) OutX
  | none => s

/-- The samples `MixVoice` reads for a voice that is on. -/
def voiceSamples [Sampling β] (cfg : Config) (s : State β) (id : VoiceId) :
    Walk β × BitVec 32 × Int :=
  let w := s.walk id (s.prepared id)
  if w.vc.Noise then
    let (Seed, Value) := getNoiseValues s.Seed
    (w, Seed, Value)
  else
    let (w, Value) := getVoiceValues cfg.Interpolation s.bus id w
    (w, s.Seed, Value)

/-- `MixVoice`, with the left and right output. -/
def mixVoice [Sampling β] (cfg : Config) (s : State β) (id : VoiceId) : State β × Int × Int :=
  if (s.voice id).ADSR.Phase > 0 then
    let (w, Seed, Value) := s.voiceSamples cfg id
    let vc := calculateADSR w.vc
    let Value := mulShr32 Value vc.ADSR.Value
    let vc := crest vc
    let s := { s.settle id { w with vc := vc } with Seed := Seed }
    (s.writeOutX id vc.OutX,
      applyVolume Value vc.VolumeL.Value, applyVolume Value vc.VolumeR.Value)
  else
    let w := s.walk id (s.prepared id)
    let w := w.skips s.bus id.2 w.vc.SP.toNat
    ((s.settle id w).writeOutX id 0, 0, 0)

/-- The samples that `GetNextDataBuffered` returns in `MixVoice`. -/
def mixSamples [Sampling β] (cfg : Config) (s : State β) (id : VoiceId) : List Int :=
  if (s.voice id).ADSR.Phase > 0 ∧ (s.voice id).Noise = false then
    (s.walk id (s.prepared id)).pulled cfg.Interpolation s.bus id (s.prepared id).SP.toNat
  else []

/-- The start of a tick of `TimeUpdate`: voices that are keyed on start. -/
def startVoice (cfg : Config) (s : State β) (id : VoiceId) : State β :=
  if (s.Cores id.1).KeyOn.getLsbD id.2 then
    let (vc, started) := (s.voice id).start s.Cycles cfg.delayCycles
    let s := s.setVoice id vc
    if started then
      s.setCore id.1
        { s.Cores id.1 with KeyOn := (s.Cores id.1).KeyOn &&& ~~~((1 : BitVec 32) <<< id.2.val) }
    else s
  else s

/-- `spu2M_Write` -/
def writeMem [Sampling β] (s : State β) (addr : Nat) (value : BitVec 16) : State β :=
  let addr := addr % 0x100000
  let s :=
    if addr ≥ SPU2_DYN_MEMLINE then
      { s with buf := Sampling.invalidate s.buf (addr / pcm_WordsPerBlock) }
    else s
  s.store addr value

/-- `V_Core::DmaWrite` -/
def dmaWrite [Sampling β] (s : State β) (core : Fin 2) (value : BitVec 16) : State β :=
  let c := s.Cores core
  (s.setCore core { c with TSA := (c.TSA + 1) % 0x100000 }).writeMem c.TSA value

/-- The words of `pMem` are copied to `addr` on. -/
def copyWords (mem : Mem) (addr : Nat) (pMem : List (BitVec 16)) : Mem := fun a =>
  if addr ≤ a ∧ a < addr + pMem.length then pMem.getD (a - addr) 0 else mem a

/-- `V_Core::PlainDMAWrite`; only the blocks up to the end of the memory are invalidated. -/
def plainDMAWrite [Sampling β] (s : State β) (core : Fin 2) (pMem : List (BitVec 16)) : State β :=
  let TSA := (s.Cores core).TSA % 0x100000
  let buff1end := min (TSA + pMem.length) 0x100000
  let buff2end := TSA + pMem.length - 0x100000
  let first := TSA / pcm_WordsPerBlock
  let last := (buff1end + pcm_WordsPerBlock - 1) / pcm_WordsPerBlock
  let buf := (List.range' first (last - first)).foldl Sampling.invalidate s.buf
  let mem := copyWords s.mem TSA (pMem.take (buff1end - TSA))
  let mem := copyWords mem 0 (pMem.drop (buff1end - TSA))
  let TDA := ((if buff2end > 0 then buff2end else buff1end) + 1) % 0x100000
  let s := s.testIrq fun IRQA =>
    if buff2end > 0 then IRQA > TSA || IRQA ≤ TDA else IRQA > TSA && IRQA ≤ TDA
  { s.setCore core { s.Cores core with TSA := TDA } with buf := buf, mem := mem }

/-- `V_Core::DoDMAwrite` without AutoDMA. -/
def doDMAwrite [Sampling β] (s : State β) (core : Fin 2) (pMem : List (BitVec 16)) : State β :=
  if pMem.length < 2 then s else s.plainDMAWrite core pMem

/-! Register writes -/

/-- `StartVoices` -/
def startVoices (cfg : Config) (s : State β) (core : Fin 2) (value : BitVec 32) : State β :=
  let c := s.Cores core
  s.setCore core { c with
    ENDX := c.ENDX &&& ~~~value
    KeyOn := c.KeyOn ||| value
    Voices := fun v =>
      if value.getLsbD v then (c.Voices v).queueStart s.Cycles cfg.delayCycles else c.Voices v }

/-- `StopVoices` -/
def stopVoices (s : State β) (core : Fin 2) (value : BitVec 32) : State β :=
  let c := s.Cores core
  s.setCore core { c with
    Voices := fun v =>
      if value.getLsbD v then
        { c.Voices v with ADSR := { (c.Voices v).ADSR with Releasing := true } }
      else c.Voices v }

/-- The 16 bits of a register pair that a write to its low or high half reaches. -/
def halfBits (hi : Bool) (value : BitVec 16) : BitVec 32 :=
  if hi then value.setWidth 32 <<< 16 else value.setWidth 32

/-- `SetHiWord` and `SetLoWord` -/
def setHalf (hi : Bool) (src : Nat) (value : BitVec 16) : Nat :=
  if hi then value.toNat * 2 ^ 16 + src % 2 ^ 16 else src / 2 ^ 16 * 2 ^ 16 + value.toNat

/-- A half of `REG_S_PMON` or `REG_S_NON`: the voices from `first` on take their bits. -/
def setBits (s : State β) (core : Fin 2) (hi : Bool) (first : Nat) (value : BitVec 16)
    (put : Voice → Bool → Voice) : State β :=
  let c := s.Cores core
  let base := if hi then 16 else 0
  s.setCore core { c with
    Voices := fun v =>
      if first ≤ v.val ∧ base ≤ v.val ∧ v.val < base + 16 then
        put (c.Voices v) (value.getLsbD (v - base))
      else c.Voices v }

/-- `RegWrite_VoiceParams` -/
def regWriteVoiceParams (s : State β) (id : VoiceId) (param : Nat) (value : BitVec 16) : State β :=
  let vc := s.voice id
  match param with
  | 0 => s.setVoice id { vc with VolumeL := vc.VolumeL.regWrite value }
  | 1 => s.setVoice id { vc with VolumeR := vc.VolumeR.regWrite value }
  | 2 => s.setVoice id { vc with Pitch := value.toNat % 0x4000 }
  | 3 => s.setVoice id { vc with ADSR := { vc.ADSR with regADSR1 := value } }
  | 4 => s.setVoice id { vc with ADSR := { vc.ADSR with regADSR2 := value } }
  | _ => s

/-- The address with a new high half, `((value & 0x0F) << 16) | (addr & 0xFFF8)`. -/
def setAddrHi (addr : Nat) (value : BitVec 16) : Nat :=
  value.toNat % 16 * 2 ^ 16 + addr % 2 ^ 16 / 8 * 8

/-- The address with a new low half, `(addr & 0x0F0000) | (value & 0xFFF8)`. -/
def setAddrLo (addr : Nat) (value : BitVec 16) : Nat :=
  addr / 2 ^ 16 % 16 * 2 ^ 16 + value.toNat / 8 * 8

/-- `RegWrite_VoiceAddr` -/
def regWriteVoiceAddr (s : State β) (id : VoiceId) (address : Nat) (value : BitVec 16) : State β :=
  let vc := s.voice id
  match address with
  | 0 => s.setVoice id { vc with StartA := setAddrHi vc.StartA value }
  | 1 => s.setVoice id { vc with StartA := setAddrLo vc.StartA value }
  | 2 => s.setVoice id { vc with LoopStartA := setAddrHi vc.LoopStartA value, LoopMode := true }
  | 3 => s.setVoice id { vc with LoopStartA := setAddrLo vc.LoopStartA value, LoopMode := true }
  | _ => s

/-- What the write of `32767` to `REG_S_ADMAS` does to the voices of the second core. -/
def parked (vc : Voice) : Voice :=
  { vc with
    VolumeL := ⟨0, 0, 0, 0⟩, VolumeR := ⟨0, 0, 0, 0⟩, SCurrent := 28
    ADSR := { vc.ADSR with Value := 0, Phase := 0 }
    Pitch := 0, NextA := 0x6FFFF, StartA := 0x6FFFF, LoopStartA := 0x6FFFF, Modulated := false }

/-- The bits of `REG_C_ATTR` that reach the interrupts. -/
def setAttr (s : State β) (core : Fin 2) (value : BitVec 16) : State β :=
  let c := s.Cores core
  let IRQEnable := value.getLsbD 6
  let s := s.setCore core { c with IRQEnable := IRQEnable }
  if IRQEnable ≠ c.IRQEnable ∧ IRQEnable = false then
    { s with irq := { s.irq with Info := s.irq.Info &&& ~~~((4 : BitVec 16) <<< core.val) } }
  else s

/-- `RegWrite_Core`; registers that are not named here have no effect on the voices. -/
def regWriteCore [Sampling β] (cfg : Config) (s : State β) (core : Fin 2) (omem : Nat)
    (value : BitVec 16) : State β :=
  let c := s.Cores core
  match omem with
  | 0x180 => s.setBits core false 1 value fun vc b => { vc with Modulated := b }
  | 0x182 => s.setBits core true 0 value fun vc b => { vc with Modulated := b }
  | 0x184 => s.setBits core false 0 value fun vc b => { vc with Noise := b }
  | 0x186 => s.setBits core true 0 value fun vc b => { vc with Noise := b }
  | 0x19a => s.setAttr core value
  | 0x19c => s.setCore core { c with IRQA := setHalf true c.IRQA value }
  | 0x19e => s.setCore core { c with IRQA := setHalf false c.IRQA value }
  | 0x1a0 => s.startVoices cfg core (halfBits false value)
  | 0x1a2 => s.startVoices cfg core (halfBits true value)
  | 0x1a4 => s.stopVoices core (halfBits false value)
  | 0x1a6 => s.stopVoices core (halfBits true value)
  | 0x1a8 => s.setCore core { c with TSA := setHalf true c.TSA value }
  | 0x1aa => s.setCore core { c with TSA := setHalf false c.TSA value }
  | 0x1ac => (s.testIrq (· == c.TSA)).dmaWrite core value
  | 0x1b0 =>
    if value = 32767 then
      s.setCore 1 { s.Cores 1 with Voices := fun v => parked ((s.Cores 1).Voices v) }
    else s
  | 0x340 => s.setCore core { c with ENDX := c.ENDX &&& 0xff0000 }
  | 0x342 => s.setCore core { c with ENDX := c.ENDX &&& 0xffff }
  | _ => s

/-- `SPU2_FastWrite`, which looks the handler up in `tbl_reg_writes`. -/
def fastWrite [Sampling β] (cfg : Config) (s : State β) (rmem : Nat) (value : BitVec 16) : State β :=
  let mem := rmem % 0x800 / 2 * 2
  let core : Fin 2 := if mem < 0x400 then 0 else 1
  let omem := mem % 0x400
  if mem = 0x7C2 then { s with irq := { s.irq with Info := value } }
  else if mem ≥ 0x760 then s
  else if omem < 0x180 then
    s.regWriteVoiceParams (core, Fin.ofNat 24 (omem / 16)) (omem % 16 / 2) value
  else if 0x1C0 ≤ omem ∧ omem < 0x2E0 then
    s.regWriteVoiceAddr (core, Fin.ofNat 24 ((omem - 0x1C0) / 12)) ((omem - 0x1C0) % 12 / 2) value
  else s.regWriteCore cfg core omem value

/-- `map_spu1to2` -/
def mapSpu1to2 (addr : Nat) : Nat := addr * 4 + if addr ≥ 0x200 then 0xc0000 else 0

/-- The voice registers of `V_Core::WriteRegPS1`. -/
def writeVoicePS1 (s : State β) (voice : Fin 24) (vval : Nat) (value : BitVec 16) : State β :=
  let id : VoiceId := (0, voice)
  let vc := s.voice id
  match vval with
  | 0x0 => s.setVoice id { vc with VolumeL := vc.VolumeL.regWrite value }
  | 0x2 => s.setVoice id { vc with VolumeR := vc.VolumeR.regWrite value }
  | 0x4 => s.setVoice id { vc with Pitch := value.toNat % 0x4000 }
  | 0x6 => s.setVoice id { vc with StartA := mapSpu1to2 value.toNat }
  | 0x8 => s.setVoice id { vc with ADSR := { vc.ADSR with regADSR1 := value } }
  | 0xa => s.setVoice id { vc with ADSR := { vc.ADSR with regADSR2 := value } }
  | 0xc =>
    s.setVoice id { vc with ADSR := { vc.ADSR with Value := wrap32 (value.toNat * 0x10001) } }
  | 0xe => s.setVoice id { vc with LoopStartA := mapSpu1to2 value.toNat }
  | _ => s

/-- The register that `V_Core::WriteRegPS1` passes a write on to, with `SPU2_FastWrite`. -/
def forwardPS1 : Nat → Option Nat
  | 0x1d88 => some 0x1a0
  | 0x1d8a => some 0x1a2
  | 0x1d8c => some 0x1a4
  | 0x1d8e => some 0x1a6
  | 0x1d90 => some 0x180
  | 0x1d92 => some 0x182
  | 0x1d94 => some 0x184
  | 0x1d96 => some 0x186
  | 0x1daa => some 0x19a
  | _ => none

/-- `V_Core::WriteRegPS1` -/
def writeRegPS1 [Sampling β] (cfg : Config) (s : State β) (mem : Nat) (value : BitVec 16) :
    State β :=
  let reg := mem % 0x10000
  let c := s.Cores 0
  if 0x1c00 ≤ reg ∧ reg < 0x1d80 then
    s.writeVoicePS1 (Fin.ofNat 24 ((reg - 0x1c00) / 16)) (reg % 16) value
  else if let some rmem := forwardPS1 reg then s.fastWrite cfg rmem value
  else if reg = 0x1da4 then s.setCore 0 { c with IRQA := mapSpu1to2 value.toNat }
  else if reg = 0x1da6 then s.setCore 0 { c with TSA := mapSpu1to2 value.toNat }
  else if reg = 0x1da8 then
    let irq := if c.IRQEnable ∧ c.IRQA ≤ c.TSA then setIrqCall s.irq 0 else s.irq
    { s with irq := irq }.dmaWrite 0 value
  else s

/-- `SPU2write` -/
def spu2write [Sampling β] (cfg : Config) (s : State β) (rmem : Nat) (value : BitVec 16) : State β :=
  if rmem / 2 ^ 16 = 0x1f80 then s.writeRegPS1 cfg rmem value else s.fastWrite cfg rmem value

end State

end OmegaRed.Spu2
