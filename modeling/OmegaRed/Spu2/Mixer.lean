import Mathlib.Logic.Function.Basic
import Mathlib.Data.BitVec
import Mathlib.Data.Fin.Basic

/-! The voices of the SPU2: their registers, envelopes and volume slides. -/

namespace OmegaRed.Spu2

instance neZero_cores : NeZero 2 := ⟨by decide⟩
instance neZero_voices : NeZero 24 := ⟨by decide⟩

/-- A signed 32-bit result. -/
def wrap32 (x : Int) : Int := x.bmod (2 ^ 32)

/-- `MulShr32` -/
def mulShr32 (srcval mulval : Int) : Int := srcval * mulval / 2 ^ 32

/-- `GetClamped` -/
def getClamped (src lo hi : Int) : Int := max lo (min hi src)

/-- `PsxRates`, as `InitADSR` fills it. -/
def psxRates (i : Nat) : Int :=
  let rate := i % 4 + 4
  min (if i < 32 then rate >>> ((35 - i) / 4) else rate <<< ((i - 32) / 4)) 0x3fffffff

def invExpOffsets : List Nat := [0, 4, 6, 8, 9, 10, 11, 12]

/-- `InvExpOffsets[(Value >> 28) & 7]` -/
def invExpOffset (Value : Int) : Nat := invExpOffsets.getD (Value / 2 ^ 28 % 8).toNat 0

def ADSR_MAX_VOL : Int := 0x7fffffff

/-- `V_ADSR`; the rates and modes are bit fields of the two registers. -/
structure ADSR where
  regADSR1 : BitVec 16
  regADSR2 : BitVec 16
  Value : Int
  Phase : Nat
  Releasing : Bool

namespace ADSR

def SustainLevel (a : ADSR) : Nat := (a.regADSR1.extractLsb' 0 4).toNat
def DecayRate (a : ADSR) : Nat := (a.regADSR1.extractLsb' 4 4).toNat
def AttackRate (a : ADSR) : Nat := (a.regADSR1.extractLsb' 8 7).toNat
def AttackMode (a : ADSR) : Bool := a.regADSR1.getLsbD 15
def ReleaseRate (a : ADSR) : Nat := (a.regADSR2.extractLsb' 0 5).toNat
def ReleaseMode (a : ADSR) : Bool := a.regADSR2.getLsbD 5
def SustainRate (a : ADSR) : Nat := (a.regADSR2.extractLsb' 6 7).toNat
/-- `SustainMode & 2` -/
def sustainDecreases (a : ADSR) : Bool := a.regADSR2.getLsbD 14
/-- `SustainMode & 4` -/
def sustainExponential (a : ADSR) : Bool := a.regADSR2.getLsbD 15

def attack (a : ADSR) : ADSR :=
  if a.Value = ADSR_MAX_VOL then { a with Phase := 2 }
  else
    let Value :=
      if a.AttackMode ∧ a.Value ≥ 0x60000000 then
        wrap32 (a.Value + psxRates ((a.AttackRate ^^^ 0x7f) + 32 - 0x18))
      else wrap32 (a.Value + psxRates ((a.AttackRate ^^^ 0x7f) + 32 - 0x10))
    if Value < 0 then { a with Phase := 2, Value := ADSR_MAX_VOL } else { a with Value := Value }

def decay (a : ADSR) : ADSR :=
  let off := invExpOffset a.Value
  let Value := wrap32 (a.Value - psxRates ((a.DecayRate ^^^ 0x1f) * 4 + off + 32 - 0x18))
  let suslev : Int := 0x8000000 * (a.SustainLevel + 1) - 1
  if Value ≤ suslev then { a with Value := max 0 Value, Phase := 3 } else { a with Value := Value }

/-- The third phase; `none` when the sustain is infinite. -/
def sustain (a : ADSR) : Option ADSR :=
  if a.SustainRate = 0x7f then none
  else if a.sustainDecreases then
    let Value :=
      if a.sustainExponential then
        wrap32 (a.Value - psxRates ((a.SustainRate ^^^ 0x7f) + invExpOffset a.Value + 32 - 0x1b))
      else wrap32 (a.Value - psxRates ((a.SustainRate ^^^ 0x7f) + 32 - 0xf))
    if Value ≤ 0 then some { a with Value := 0, Phase := 4 } else some { a with Value := Value }
  else
    let Value :=
      if a.sustainExponential ∧ a.Value ≥ 0x60000000 then
        wrap32 (a.Value + psxRates ((a.SustainRate ^^^ 0x7f) + 32 - 0x18))
      else wrap32 (a.Value + psxRates ((a.SustainRate ^^^ 0x7f) + 32 - 0x10))
    if Value < 0 then some { a with Value := ADSR_MAX_VOL, Phase := 4 }
    else some { a with Value := Value }

def sustainEnd (a : ADSR) : ADSR :=
  if a.sustainDecreases then { a with Value := 0, Phase := 6 } else { a with Value := ADSR_MAX_VOL }

def release (a : ADSR) : ADSR :=
  let Value :=
    if a.ReleaseMode then
      wrap32 (a.Value - psxRates ((a.ReleaseRate ^^^ 0x1f) * 4 + invExpOffset a.Value + 32 - 0x18))
    else if a.ReleaseRate ≠ 0x1f then wrap32 (a.Value - 1 <<< (0x1f - a.ReleaseRate))
    else a.Value
  if Value ≤ 0 then { a with Value := 0, Phase := 6 } else { a with Value := Value }

/-- `V_ADSR::Calculate`, with whether the voice stays active. -/
def calculate (a : ADSR) : ADSR × Bool :=
  let a := if a.Releasing ∧ a.Phase < 5 then { a with Phase := 5 } else a
  match a.Phase with
  | 1 => (a.attack, true)
  | 2 => (a.decay, true)
  | 3 => (a.sustain.getD a, true)
  | 4 => (a.sustainEnd, a.sustainEnd.Phase != 6)
  | 5 => (a.release, a.release.Phase != 6)
  | 6 => ({ a with Value := 0 }, false)
  | _ => (a, true)

end ADSR

/-- `V_VolumeSlide` -/
structure VolumeSlide where
  Reg_VOL : BitVec 16
  Value : Int
  Increment : Nat
  Mode : BitVec 4

namespace VolumeSlide

/-- `V_VolumeSlide::Update` -/
def update (v : VolumeSlide) : VolumeSlide :=
  if v.Mode.getLsbD 3 = false ∨ v.Increment = 0x7f then v
  else
    let value : Int := v.Value.natAbs
    let exponential := v.Mode.getLsbD 2
    if v.Mode.getLsbD 1 then
      let value :=
        if exponential then
          wrap32 (value - psxRates ((v.Increment ^^^ 0x7f) + invExpOffset value + 32 - 0x1b))
        else wrap32 (value - psxRates ((v.Increment ^^^ 0x7f) + 32 - 0xf))
      settle v value 0
    else
      let value :=
        if exponential ∧ value ≥ 0x60000000 then
          wrap32 (value + psxRates ((v.Increment ^^^ 0x7f) + 32 - 0x18))
        else wrap32 (value + psxRates ((v.Increment ^^^ 0x7f) + 32 - 0x10))
      settle v value 0x7fffffff
where
  /-- A value below zero ends the slide at `bound`. -/
  settle (v : VolumeSlide) (value bound : Int) : VolumeSlide :=
    let Mode := if value < 0 then 0 else v.Mode
    let value := if value < 0 then bound else value
    { v with Mode := Mode, Value := if v.Value < 0 then -value else value }

/-- `GetVol32` -/
def getVol32 (src : BitVec 16) : Int := (src ++ (src <<< 1) : BitVec 32).toInt

/-- A write to a volume register of a voice. -/
def regWrite (v : VolumeSlide) (value : BitVec 16) : VolumeSlide :=
  if value.getLsbD 15 then
    { v with Reg_VOL := value, Mode := value.extractLsb' 12 4
             Increment := (value.extractLsb' 0 7).toNat }
  else { Reg_VOL := value, Value := getVol32 (value <<< 1), Mode := 0, Increment := 0 }

end VolumeSlide

/-- `V_Voice` without the sample pointer `SBuffer`; addresses count words. -/
structure Voice where
  PlayCycle : BitVec 32
  VolumeL : VolumeSlide
  VolumeR : VolumeSlide
  ADSR : ADSR
  Pitch : Nat
  LoopStartA : Nat
  StartA : Nat
  NextA : Nat
  Prev1 : Int
  Prev2 : Int
  Modulated : Bool
  Noise : Bool
  LoopMode : Bool
  LoopFlags : BitVec 8
  SP : Int
  PV4 : Int
  PV3 : Int
  PV2 : Int
  PV1 : Int
  OutX : Int
  NextCrest : Int
  SCurrent : Nat

namespace Voice

/-- `XAFLAG_LOOP_END` -/
def loopEnd (vc : Voice) : Bool := vc.LoopFlags.getLsbD 0
/-- `XAFLAG_LOOP` -/
def loop (vc : Voice) : Bool := vc.LoopFlags.getLsbD 1

/-- `V_Voice::QueueStart` -/
def queueStart (vc : Voice) (Cycles delayCycles : BitVec 32) : Voice :=
  if Cycles - vc.PlayCycle < delayCycles then vc else { vc with PlayCycle := Cycles }

/-- `V_Voice::Start`, with whether the voice started. -/
def start (vc : Voice) (Cycles delayCycles : BitVec 32) : Voice × Bool :=
  if Cycles - vc.PlayCycle ≥ delayCycles then
    let StartA := if vc.StartA % 8 ≠ 0 then (vc.StartA + 0xFFFF8 + 0x8) % 2 ^ 32 else vc.StartA
    ({ vc with
        StartA := StartA
        ADSR := { vc.ADSR with Releasing := false, Value := 1, Phase := 1 }
        SCurrent := 28, LoopMode := false, LoopFlags := 0, NextA := StartA ||| 1
        Prev1 := 0, Prev2 := 0, PV1 := 0, PV2 := 0, PV3 := 0, PV4 := 0, NextCrest := -0x8000 },
      true)
  else (vc, false)

/-- `V_Voice::Stop` -/
def stop (vc : Voice) : Voice := { vc with ADSR := { vc.ADSR with Value := 0, Phase := 0 } }

/-- What `V_Core::Init` leaves of a voice. -/
def init : Voice where
  PlayCycle := 0
  VolumeL := ⟨0, 0, 0, 0⟩
  VolumeR := ⟨0, 0, 0, 0⟩
  ADSR := ⟨0, 0, 0, 0, false⟩
  Pitch := 0x3FFF
  LoopStartA := 0x2800
  StartA := 0x2800
  NextA := 0x2801
  Prev1 := 0
  Prev2 := 0
  Modulated := false
  Noise := false
  LoopMode := false
  LoopFlags := 0
  SP := 0
  PV4 := 0
  PV3 := 0
  PV2 := 0
  PV1 := 0
  OutX := 0
  NextCrest := 0
  SCurrent := 28

end Voice

end OmegaRed.Spu2

/-! How a voice steps through its blocks and what the mixer makes of the samples. -/

namespace OmegaRed.Spu2

/-- A word address of the sound memory reads a word; addresses from `0x100000` on are past it. -/
abbrev Mem := Nat → BitVec 16

/-- A core and one of its voices. -/
abbrev VoiceId := Fin 2 × Fin 24

def tblXAFactor : List (Int × Int) := [(0, 0), (60, 0), (115, -52), (98, -55), (122, -60)]

/-- The predictor of the loop of `XA_decode_block` and the samples decoded so far. -/
structure Decoder where
  samples : List Int
  prev1 : Int
  prev2 : Int

/-- The nibble of `blockbytes` at `lsb`, scaled by `shift`. -/
def scaled (byte : BitVec 8) (lsb shift : Nat) : Int :=
  (byte.extractLsb' lsb 4).toInt * 2 ^ 28 / 2 ^ shift

/-- One round of the loop of `XA_decode_block`. -/
def decodeByte (shift : Nat) (pred : Int × Int) (d : Decoder) (byte : BitVec 8) : Decoder :=
  let pcm := getClamped (scaled byte 0 shift + (pred.1 * d.prev1 + pred.2 * d.prev2 + 32) / 2 ^ 6)
    (-0x8000) 0x7fff
  let pcm2 := getClamped (scaled byte 4 shift + (pred.1 * pcm + pred.2 * d.prev1 + 32) / 2 ^ 6)
    (-0x8000) 0x7fff
  ⟨d.samples ++ [pcm, pcm2], pcm2, pcm⟩

/-- The bytes of a block after its header. -/
def blockBytes (mem : Mem) (memptr : Nat) : List (BitVec 8) :=
  (List.range 14).map fun k => (mem (memptr + 1 + k / 2)).extractLsb' (8 * (k % 2)) 8

/-- `XA_decode_block` for the block at `memptr`. -/
def XA_decode_block (mem : Mem) (memptr : Nat) (prev1 prev2 : Int) : Decoder :=
  let header := mem memptr
  let shift := (header.extractLsb' 0 4).toNat + 16
  let pred := tblXAFactor.getD (header.extractLsb' 4 4).toNat (0, 0)
  (blockBytes mem memptr).foldl (decodeByte shift pred) ⟨[], prev1, prev2⟩

def SPU2_DYN_MEMLINE : Nat := 0x2800
def pcm_WordsPerBlock : Nat := 8

/-- Where the voices have their decoded samples: `enter` gives a voice the block at an address
and leaves its predictor, `sample` reads its block, and `invalidate` is told that a block of
memory changes. -/
class Sampling (β : Type) where
  enter : β → VoiceId → Mem → (NextA : Nat) → (prev1 prev2 : Int) → β × Int × Int
  sample : β → VoiceId → Nat → Int
  invalidate : β → Nat → β

/-- `Spdif.Info` and `has_to_call_irq`. -/
structure Irq where
  Info : BitVec 16
  has_to_call_irq : Bool

/-- `SetIrqCall` -/
def setIrqCall (q : Irq) (core : Fin 2) : Irq :=
  if q.Info.getLsbD (2 + core) then q
  else ⟨q.Info ||| (4 : BitVec 16) <<< core.val, true⟩

/-- What a voice reads and does not change while it is stepped. -/
structure Bus where
  mem : Mem
  IRQEnable : Fin 2 → Bool
  IRQA : Fin 2 → Nat

/-- The cores' test of their interrupt address. -/
def Bus.testIrq (e : Bus) (hit : Nat → Bool) (q : Irq) : Irq :=
  let q := if e.IRQEnable 0 && hit (e.IRQA 0) then setIrqCall q 0 else q
  if e.IRQEnable 1 && hit (e.IRQA 1) then setIrqCall q 1 else q

/-- A voice being stepped, with the state of the SPU2 that this changes. -/
structure Walk (β : Type) where
  vc : Voice
  ENDX : BitVec 32
  irq : Irq
  buf : β

/-- `NextA & 0xFFFF8` -/
def blockAddr (NextA : Nat) : Nat := NextA % 0x100000 / 8 * 8

namespace Walk

variable {β : Type}

/-- `IncrementNextA` -/
def incrementNextA (e : Bus) (w : Walk β) : Walk β :=
  { w with irq := e.testIrq (w.vc.NextA == ·) w.irq
           vc := { w.vc with NextA := (w.vc.NextA + 1) % 0x100000 } }

/-- The voice is past the end of a block whose flags send it to the loop address. -/
def toLoop (voiceidx : Fin 24) (w : Walk β) : Walk β :=
  { w with ENDX := w.ENDX ||| (1 : BitVec 32) <<< voiceidx.val
           vc := { w.vc with NextA := w.vc.LoopStartA ||| 1 } }

/-- The interrupt test, loop flags and loop start of a block that is entered. -/
def readHeader (e : Bus) (w : Walk β) : Walk β :=
  let LoopFlags := (e.mem (blockAddr w.vc.NextA)).extractLsb' 8 8
  { w with
    irq := e.testIrq (· == blockAddr w.vc.NextA) w.irq
    vc := { w.vc with
      SCurrent := 0
      LoopFlags := LoopFlags
      LoopStartA :=
        if LoopFlags.getLsbD 2 && !w.vc.LoopMode then blockAddr w.vc.NextA
        else w.vc.LoopStartA } }

/-- The first test of `GetNextDataBuffered`. -/
def nextGroupBuffered (e : Bus) (voiceidx : Fin 24) (w : Walk β) : Walk β :=
  let w := w.incrementNextA e
  if w.vc.NextA % 8 = 0 then
    if w.vc.loopEnd then
      let w := w.toLoop voiceidx
      if w.vc.loop then w else { w with vc := w.vc.stop }
    else { w with vc := { w.vc with NextA := w.vc.NextA + 1 } }
  else w

/-- The second test of `GetNextDataBuffered`. -/
def enterBlock [Sampling β] (e : Bus) (id : VoiceId) (w : Walk β) : Walk β :=
  let w := w.readHeader e
  let (buf, Prev1, Prev2) := Sampling.enter w.buf id e.mem w.vc.NextA w.vc.Prev1 w.vc.Prev2
  { w with buf := buf, vc := { w.vc with Prev1 := Prev1, Prev2 := Prev2 } }

/-- `GetNextDataBuffered` -/
def getNextDataBuffered [Sampling β] (e : Bus) (id : VoiceId) (w : Walk β) : Walk β × Int :=
  let w := if w.vc.SCurrent % 4 = 0 then w.nextGroupBuffered e id.2 else w
  let w := if w.vc.SCurrent = 28 then w.enterBlock e id else w
  ({ w with vc := { w.vc with SCurrent := w.vc.SCurrent + 1 } },
    Sampling.sample w.buf id w.vc.SCurrent)

/-- The address and loop test of `GetNextDataDummy`. -/
def nextGroupDummy (e : Bus) (voiceidx : Fin 24) (w : Walk β) : Walk β :=
  let w := w.incrementNextA e
  if w.vc.NextA % 8 = 0 then
    if w.vc.loopEnd then w.toLoop voiceidx
    else { w with vc := { w.vc with NextA := w.vc.NextA + 1 } }
  else w

/-- `GetNextDataDummy` -/
def getNextDataDummy (e : Bus) (voiceidx : Fin 24) (w : Walk β) : Walk β :=
  let w := w.nextGroupDummy e voiceidx
  let w := if w.vc.SCurrent = 28 then w.readHeader e else w
  { w with vc := { w.vc with
      SP := w.vc.SP - 4096 * (4 - (w.vc.SCurrent % 4 : Nat))
      SCurrent := w.vc.SCurrent + (4 - w.vc.SCurrent % 4) } }

/-- One round of the loop of `GetVoiceValues`. -/
def pull [Sampling β] (InterpType : Nat) (e : Bus) (id : VoiceId) (w : Walk β) : Walk β :=
  let vc := w.vc
  let w := { w with vc := { vc with
    PV4 := if InterpType ≥ 2 then vc.PV3 else vc.PV4
    PV3 := if InterpType ≥ 2 then vc.PV2 else vc.PV3
    PV2 := vc.PV1 } }
  let (w, PV1) := w.getNextDataBuffered e id
  { w with vc := { w.vc with PV1 := PV1, SP := w.vc.SP - 4096 } }

/-- The loop of `GetVoiceValues`, `while (vc.SP > 0)`. -/
def pulls [Sampling β] (InterpType : Nat) (e : Bus) (id : VoiceId) : Nat → Walk β → Walk β
  | 0, w => w
  | fuel + 1, w =>
    if w.vc.SP > 0 then pulls InterpType e id fuel (w.pull InterpType e id) else w

/-- The samples that `GetNextDataBuffered` returns in this loop. -/
def pulled [Sampling β] (InterpType : Nat) (e : Bus) (id : VoiceId) : Nat → Walk β → List Int
  | 0, _ => []
  | fuel + 1, w =>
    if w.vc.SP > 0 then
      (w.pull InterpType e id).vc.PV1 :: pulled InterpType e id fuel (w.pull InterpType e id)
    else []

/-- The loop over `GetNextDataDummy` of `MixVoice`, `while (vc.SP > 0)`. -/
def skips (e : Bus) (voiceidx : Fin 24) : Nat → Walk β → Walk β
  | 0, w => w
  | fuel + 1, w => if w.vc.SP > 0 then skips e voiceidx fuel (w.getNextDataDummy e voiceidx) else w

end Walk

/-- `CubicInterpolate` -/
def cubicInterpolate (y0 y1 y2 y3 mu : Int) : Int :=
  let a0 := y3 - y2 - y0 + y1
  let a1 := y0 - y1 - a0
  let a2 := y2 - y0
  let val := a0 * mu / 2 ^ 12
  let val := (val + a1) * mu / 2 ^ 12
  let val := (val + a2) * mu / 2 ^ 11
  val + 2 * y1

/-- `HermiteInterpolate` -/
def hermiteInterpolate (tension y0 y1 y2 y3 mu : Int) : Int :=
  let m0 := (y1 - y0) * tension / 2 ^ 16 + (y2 - y1) * tension / 2 ^ 16
  let m1 := (y2 - y1) * tension / 2 ^ 16 + (y3 - y2) * tension / 2 ^ 16
  let val := (2 * y1 + m0 + m1 - 2 * y2) * mu / 2 ^ 12
  let val := (val - 3 * y1 - 2 * m0 - m1 + 3 * y2) * mu / 2 ^ 12
  let val := (val + m0) * mu / 2 ^ 11
  val + 2 * y1

/-- `CatmullRomInterpolate` -/
def catmullRomInterpolate (y0 y1 y2 y3 mu : Int) : Int :=
  let a3 := -y0 + 3 * y1 - 3 * y2 + y3
  let a2 := 2 * y0 - 5 * y1 + 4 * y2 - y3
  let a1 := -y0 + y2
  let a0 := 2 * y1
  let val := a3 * mu / 2 ^ 12
  let val := (a2 + val) * mu / 2 ^ 12
  let val := (a1 + val) * mu / 2 ^ 12
  a0 + val

/-- What `GetVoiceValues` returns after its loop. -/
def interpolate (InterpType : Nat) (vc : Voice) : Int :=
  let mu := vc.SP + 4096
  match InterpType with
  | 0 => 2 * vc.PV1
  | 1 => 2 * vc.PV1 - (vc.PV2 - vc.PV1) * vc.SP / 2 ^ 11
  | 2 => cubicInterpolate vc.PV4 vc.PV3 vc.PV2 vc.PV1 mu
  | 3 => hermiteInterpolate 16384 vc.PV4 vc.PV3 vc.PV2 vc.PV1 mu
  | _ => catmullRomInterpolate vc.PV4 vc.PV3 vc.PV2 vc.PV1 mu

/-- `GetVoiceValues` -/
def getVoiceValues {β : Type} [Sampling β] (InterpType : Nat) (e : Bus) (id : VoiceId)
    (w : Walk β) : Walk β × Int :=
  let w := w.pulls InterpType e id w.vc.SP.toNat
  (w, interpolate InterpType w.vc)

/-- `GetNoiseValues`, with the next `Seed`. -/
def getNoiseValues (Seed : BitVec 32) : BitVec 32 × Int :=
  let retval : Int :=
    if Seed.getLsbD 8 then (Seed.extractLsb' 0 8).toNat * 2 ^ 8
    else if Seed.extractLsb' 0 16 ≠ 0 then 0x7fff
    else 0x8000
  let x := Seed.rotateRight 5 ^^^ 0x9a
  let y := (x.rotateLeft 2 + x) ^^^ x
  (y.rotateRight 3, retval)

/-- `ApplyVolume` -/
def applyVolume (data volume : Int) : Int := mulShr32 (2 * data) volume

/-- `CalculateADSR` -/
def calculateADSR (vc : Voice) : Voice :=
  if vc.ADSR.Phase = 0 then { vc with ADSR := { vc.ADSR with Value := 0 } }
  else
    let (a, active) := vc.ADSR.calculate
    let vc := { vc with ADSR := a }
    if active then vc else vc.stop

/-- `OutX` and `NextCrest` after a sample. -/
def crest (vc : Voice) : Voice :=
  let vc :=
    if vc.PV1 < vc.NextCrest then
      { vc with OutX := mulShr32 vc.NextCrest vc.ADSR.Value, NextCrest := -0x8000 }
    else vc
  if vc.PV1 > vc.PV2 then { vc with NextCrest := vc.PV1 } else vc

end OmegaRed.Spu2

/-! The cache of decoded blocks that the voices share. -/

namespace OmegaRed.Spu2

structure PcmCacheEntry where
  Validated : Bool
  Sampledata : List Int

/-- `pcm_cache_data`, and the entry each voice's `SBuffer` points to. -/
structure PcmCache where
  pcm_cache_data : Nat → PcmCacheEntry
  SBuffer : VoiceId → Nat

namespace PcmCache

/-- The cache in a process that has just started. -/
def empty : PcmCache := ⟨fun _ => ⟨false, []⟩, fun _ => 0⟩

/-- The part of `GetNextDataBuffered` that fetches a block. -/
def enter (c : PcmCache) (id : VoiceId) (mem : Mem) (NextA : Nat) (Prev1 Prev2 : Int) :
    PcmCache × Int × Int :=
  let cacheIdx := NextA / pcm_WordsPerBlock
  let cacheLine := c.pcm_cache_data cacheIdx
  let SBuffer := Function.update c.SBuffer id cacheIdx
  if cacheLine.Validated then
    ({ c with SBuffer := SBuffer },
      cacheLine.Sampledata.getD 27 0, cacheLine.Sampledata.getD 26 0)
  else
    let d := XA_decode_block mem (blockAddr NextA) Prev1 Prev2
    let line : PcmCacheEntry := ⟨NextA ≥ SPU2_DYN_MEMLINE, d.samples⟩
    (⟨Function.update c.pcm_cache_data cacheIdx line, SBuffer⟩, d.prev1, d.prev2)

def invalidate (c : PcmCache) (cacheIdx : Nat) : PcmCache :=
  let cacheLine := { c.pcm_cache_data cacheIdx with Validated := false }
  { c with pcm_cache_data := Function.update c.pcm_cache_data cacheIdx cacheLine }

instance : Sampling PcmCache where
  enter := enter
  sample c id SCurrent := (c.pcm_cache_data (c.SBuffer id)).Sampledata.getD SCurrent 0
  invalidate := invalidate

end PcmCache

end OmegaRed.Spu2
