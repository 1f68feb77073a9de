import OmegaRed.Spu2.RegWrite

/-! The register map: which variables belong to the register at an address. -/

namespace OmegaRed.Spu2.Registers

inductive Name
  | VoiceParam (core : Fin 2) (voice : Fin 24) (param : Fin 8)
  | VoiceAddr (core : Fin 2) (voice : Fin 24) (address : Fin 6)
  | Core (core : Fin 2) (reg : CoreReg) (second : Bool)
  | Ext (core : Fin 2) (reg : ExtReg)
  | Spdif (f : SpdifCell)
  | Unknown (i : Nat)
  deriving DecidableEq

def CoreReg.all : List CoreReg :=
  [REG_S_PMON, REG_S_NON, REG_S_VMIXL, REG_S_VMIXEL, REG_S_VMIXR, REG_S_VMIXER, REG_P_MMIX,
    REG_C_ATTR, REG_A_IRQA, REG_S_KON, REG_S_KOFF, REG_A_TSA, REG__1AC, REG_S_ADMAS, REG_A_ESA] ++
  RevbAddr.all.map R ++ [REG_A_EEA, REG_S_ENDX, REG_P_STATX]

/-- The registers of one word. -/
def CoreReg.single : CoreReg → Bool
  | REG_P_MMIX | REG_C_ATTR | REG_S_ADMAS | REG_P_STATX => true
  | _ => false

/-- The words of the registers of a core. -/
def CoreReg.words : List (CoreReg × Bool) :=
  all.flatMap fun r => if r.single then [(r, false)] else [(r, false), (r, true)]

def ExtReg.all : List ExtReg :=
  ([Side.Left, Side.Right].flatMap fun side =>
    [REG_P_MVOL side, REG_P_EVOL side, REG_P_AVOL side, REG_P_BVOL side, REG_P_MVOLX side]) ++
  RevbVol.all.map R

def SpdifCell.mem : SpdifCell → Nat
  | Out => 0x7c0
  | Info => 0x7c2
  | Unknown1 => 0x7c4
  | Mode => 0x7c6
  | Media => 0x7c8
  | Unknown2 => 0x7ca
  | Protection => 0x7cc

def SpdifCell.all : List SpdifCell := [Out, Info, Unknown1, Mode, Media, Unknown2, Protection]

/-- The register at an address below `0x800`. -/
def regName (addr : Nat) : Name :=
  let core : Fin 2 := if addr < 0x400 then 0 else 1
  let m := addr % 0x400
  if addr < 0x746 then
    if m < 0x180 then
      .VoiceParam core ⟨m / 16 % 24, Nat.mod_lt _ (by decide)⟩
        ⟨m % 16 / 2 % 8, Nat.mod_lt _ (by decide)⟩
    else if 0x1c0 ≤ m ∧ m < 0x2e0 then
      .VoiceAddr core ⟨(m - 0x1c0) / 12 % 24, Nat.mod_lt _ (by decide)⟩
        ⟨(m - 0x1c0) % 12 / 2 % 6, Nat.mod_lt _ (by decide)⟩
    else match CoreReg.words.find? fun w => w.1.omem w.2 = m with
      | some w => .Core core w.1 w.2
      | none => .Unknown addr
  else if 0x760 ≤ addr ∧ addr < 0x788 then
    match ExtReg.all.find? fun r => r.mem = addr with
    | some r => .Ext 0 r
    | none => .Unknown addr
  else if 0x788 ≤ addr ∧ addr < 0x7b0 then
    match ExtReg.all.find? fun r => r.mem + 0x28 = addr with
    | some r => .Ext 1 r
    | none => .Unknown addr
  else match SpdifCell.all.find? fun f => f.mem = addr with
    | some f => .Spdif f
    | none => .Unknown addr

namespace Name

/-- The address of a register. -/
def addr : Name → Nat
  | VoiceParam core voice param => core.val * 0x400 + voice.val * 16 + param.val * 2
  | VoiceAddr core voice address => core.val * 0x400 + 0x1c0 + voice.val * 12 + address.val * 2
  | Core core reg second => core.val * 0x400 + reg.omem second
  | Ext core reg => core.val * 0x28 + reg.mem
  | Spdif f => f.mem
  | Unknown i => i

/-- The core of a register. -/
def core? : Name → Option (Fin 2)
  | VoiceParam core _ _ | VoiceAddr core _ _ | Core core _ _ | Ext core _ => some core
  | Spdif _ | Unknown _ => none

end Name

/-- The variables of a parameter of a voice. -/
def paramOwns (param : Fin 8) (f : VoiceCell) : Prop :=
  match param with
  | 0 => ∃ g, f = .Volume .Left g
  | 1 => ∃ g, f = .Volume .Right g
  | 2 => f = .Pitch
  | 3 => f = .regADSR1
  | 4 => f = .regADSR2
  | 5 => f = .ADSRValue
  | 6 => f = .Volume .Left .Value
  | 7 => f = .Volume .Right .Value

/-- The variables of half an address of a voice. -/
def addressOwns (address : Fin 6) (f : VoiceCell) (h : Half) : Prop :=
  match address with
  | 0 => f = .StartA ∧ h = .hi
  | 1 => f = .StartA ∧ h = .lo
  | 2 => (f = .LoopStartA ∧ h = .hi) ∨ f = .LoopMode
  | 3 => (f = .LoopStartA ∧ h = .lo) ∨ f = .LoopMode
  | 4 => f = .NextA ∧ h = .hi
  | 5 => f = .NextA ∧ h = .lo

/-- A register with a bit for each voice: its half, and the variables of these voices. -/
def bitsOwn (reg : CoreRegs) (voiceOwns : Fin 24 → CoreCell → Prop) (half h : Half)
    (f : CoreCell) : Prop :=
  (f = .Regs reg ∧ h = half) ∨ ∃ v, half.has v ∧ voiceOwns v f

/-- An end of the effects area as it is used, which follows a write while the effects are off. -/
def areaOwns (inner : CoreCell) (f : CoreCell) : Prop :=
  f = inner ∨ f = .ReverbX ∨ f = .NeedsUpdated

/-- The variables of its core that belong to a register. -/
def CoreReg.owns (reg : CoreReg) (second : Bool) (f : CoreCell) (h : Half) : Prop :=
  let half : Half := if second then .hi else .lo
  -- the addresses have their high half first
  let swapped : Half := if second then .lo else .hi
  match reg with
  | REG_S_PMON => bitsOwn .PMON (fun v f => f = .Voices v .Modulated) half h f
  | REG_S_NON => bitsOwn .NON (fun v f => f = .Voices v .Noise) half h f
  | REG_S_VMIXL => bitsOwn .VMIXL (fun v f => f = .VoiceGates v .DryL) half h f
  | REG_S_VMIXEL => bitsOwn .VMIXEL (fun v f => f = .VoiceGates v .WetL) half h f
  | REG_S_VMIXR => bitsOwn .VMIXR (fun v f => f = .VoiceGates v .DryR) half h f
  | REG_S_VMIXER => bitsOwn .VMIXER (fun v f => f = .VoiceGates v .WetR) half h f
  | REG_P_MMIX => f = .Regs .MMIX ∨ ∃ g, f = .DryGate g ∨ f = .WetGate g
  | REG_C_ATTR =>
    f = .Regs .ATTR ∨ f = .Regs .STATX ∨ f = .AttrBit0 ∨ f = .DMABits ∨ f = .DmaMode ∨
      f = .IRQEnable ∨ f = .FxEnable ∨ f = .NoiseClk ∨ f = .Mute ∨
      areaOwns .EffectsStartA f ∨ areaOwns .EffectsEndA f
  | REG_A_IRQA => f = .IRQA ∧ h = swapped
  | REG_S_KON =>
    ((f = .Regs .ENDX ∨ f = .KeyOn) ∧ h = half) ∨ ∃ v, half.has v ∧ f = .Voices v .PlayCycle
  | REG_S_KOFF => ∃ v, half.has v ∧ f = .Voices v .Releasing
  | REG_A_TSA => f = .TSA ∧ h = swapped
  | REG__1AC => second = false ∧ f = .TSA
  | REG_S_ADMAS => f = .AutoDMACtrl ∨ f = .AdmaInProgress
  | REG_A_ESA => (f = .ExtEffectsStartA ∧ h = swapped) ∨ areaOwns .EffectsStartA f
  | R r => f = .Revb r ∧ h = swapped
  | REG_A_EEA =>
    -- its low half is always set, and is not written
    (f = .ExtEffectsEndA ∧ (second = true → h = .lo)) ∨ areaOwns .EffectsEndA f
  | REG_S_ENDX => f = .Regs .ENDX ∧ h = half
  | REG_P_STATX => f = .Regs .STATX

/-- The variables outside its core that a register has: the word of a register that is only
stored, the memory behind the data register and the interrupts that it or `ATTR` changes. -/
def CoreReg.ownsOutside (reg : CoreReg) (second : Bool) (core : Fin 2) (c : Cell) : Prop :=
  match reg with
  | REG_S_KON | REG_S_KOFF => c = .spu2regs ((core.val * 0x400 + reg.omem second) / 2)
  | REG__1AC =>
    if second then c = .spu2regs ((core.val * 0x400 + reg.omem second) / 2)
    else c = .Spdif .Info ∨ c = .has_to_call_irq ∨ (∃ a, c = .spu2mem a) ∨ ∃ b, c = .Validated b
  | REG_C_ATTR => c = .Spdif .Info
  | _ => False

/-- The variables of its core that belong to a register from `0x760`. -/
def ExtReg.owns (reg : ExtReg) (f : CoreCell) : Prop :=
  match reg with
  | REG_P_MVOL side => ∃ g, f = .MasterVol side g
  | REG_P_EVOL side => f = .FxVol side
  | REG_P_AVOL side => f = .ExtVol side
  | REG_P_BVOL side => f = .InpVol side
  | REG_P_MVOLX side => f = .MasterVol side .Value
  | R r => f = .RevbVols r

/-- The half of a variable belongs to the register. -/
def Name.owns (n : Name) (c : Cell) (h : Half) : Prop :=
  match n with
  | VoiceParam core voice param => ∃ f, c = .Cores core (.Voices voice f) ∧ paramOwns param f
  | VoiceAddr core voice address =>
    ∃ f, c = .Cores core (.Voices voice f) ∧ addressOwns address f h
  | Core core reg second =>
    (∃ f, c = .Cores core f ∧ reg.owns second f h) ∨ reg.ownsOutside second core c
  | Ext core reg => ∃ f, c = .Cores core f ∧ reg.owns f
  | Spdif f => c = .Spdif f ∨ c = .PlayMode
  | Unknown i => c = .spu2regs (i / 2)

/-- The bits that a variable has: one for each voice, or those of an address of eight words. -/
def Cell.bits : Cell → BitVec 32
  | Cores _ (.Regs .ENDX) => 0xffffff
  | Cores _ (.Voices _ .StartA) => 0xffff8
  | Cores _ (.Voices _ .LoopStartA) => 0xffff8
  | _ => 0xffffffff

/-- A variable of which no half belongs to the register is as it was, and so is the half of a
variable that does not. -/
structure Name.Keeps (n : Name) (s t : State) : Prop where
  other : ∀ c, (∀ h, ¬ n.owns c h) → t c = s c
  half : ∀ c h, ¬ n.owns c h → h.get (t c &&& c.bits) = h.get (s c &&& c.bits)

end OmegaRed.Spu2.Registers
