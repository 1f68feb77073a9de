import OmegaRed.IPU.Bitstream

/-! The commands of the IPU that keep their place in `ipu_cmd` when they have to wait: `VDEC`,
`FDEC`, `SETIQ`, `SETVQ` and `CSC`. -/

namespace OmegaRed.IPU

universe u

/-- What the commands ask of the bit reader and the output FIFO. -/
structure Port (ρ : Type u) where
  fillBuffer : ρ → Nat → ρ × Bool
  getBits : (k : Nat) → ρ → Bool → ρ × Option (BitVec (8 * k))
  ubits : ρ → Nat → BitVec 32
  sbits : ρ → Nat → BitVec 32
  advance : ρ → Nat → ρ
  write : ρ → List U128 → ρ × Nat

/-! ## Codes of variable length -/

/-- `MBtab`, `MVtab`, `DMVtab` and `MBAtab`, the value as an `int`. -/
structure Vlc where
  value : BitVec 32
  len : Nat
deriving DecidableEq

def MB_I : List Vlc := [⟨17, 2⟩, ⟨1, 1⟩]

def MB_P : List Vlc :=
  [⟨17, 6⟩, ⟨18, 5⟩, ⟨26, 5⟩, ⟨1, 5⟩] ++ List.replicate 4 ⟨8, 3⟩ ++ List.replicate 8 ⟨2, 2⟩ ++
    List.replicate 16 ⟨10, 1⟩

def MB_B : List Vlc :=
  [⟨0, 0⟩, ⟨17, 6⟩, ⟨22, 6⟩, ⟨26, 6⟩, ⟨30, 5⟩, ⟨30, 5⟩, ⟨1, 5⟩, ⟨1, 5⟩] ++
    List.replicate 4 ⟨8, 4⟩ ++ List.replicate 4 ⟨10, 4⟩ ++ List.replicate 8 ⟨4, 3⟩ ++
    List.replicate 8 ⟨6, 3⟩ ++ List.replicate 16 ⟨12, 2⟩ ++ List.replicate 16 ⟨14, 2⟩

def MV_4 : List Vlc :=
  [⟨3, 6⟩, ⟨2, 4⟩, ⟨1, 3⟩, ⟨1, 3⟩, ⟨0, 2⟩, ⟨0, 2⟩, ⟨0, 2⟩, ⟨0, 2⟩]

def MV_10 : List Vlc :=
  List.replicate 12 ⟨0, 10⟩ ++ [⟨15, 10⟩, ⟨14, 10⟩, ⟨13, 10⟩, ⟨12, 10⟩, ⟨11, 10⟩, ⟨10, 10⟩] ++
    [⟨9, 9⟩, ⟨9, 9⟩, ⟨8, 9⟩, ⟨8, 9⟩, ⟨7, 9⟩, ⟨7, 9⟩] ++ List.replicate 8 ⟨6, 7⟩ ++
    List.replicate 8 ⟨5, 7⟩ ++ List.replicate 8 ⟨4, 7⟩

def DMV_2 : List Vlc := [⟨0, 1⟩, ⟨0, 1⟩, ⟨1, 2⟩, ⟨-1, 2⟩]

def MBA_5 : List Vlc :=
  [⟨6, 5⟩, ⟨5, 5⟩, ⟨4, 4⟩, ⟨4, 4⟩, ⟨3, 4⟩, ⟨3, 4⟩] ++ List.replicate 4 ⟨2, 3⟩ ++
    List.replicate 4 ⟨1, 3⟩ ++ List.replicate 16 ⟨0, 1⟩

def MBA_11 : List Vlc :=
  [⟨32, 11⟩, ⟨31, 11⟩, ⟨30, 11⟩, ⟨29, 11⟩, ⟨28, 11⟩, ⟨27, 11⟩, ⟨26, 11⟩, ⟨25, 11⟩, ⟨24, 11⟩,
    ⟨23, 11⟩, ⟨22, 11⟩, ⟨21, 11⟩, ⟨20, 10⟩, ⟨20, 10⟩, ⟨19, 10⟩, ⟨19, 10⟩, ⟨18, 10⟩, ⟨18, 10⟩,
    ⟨17, 10⟩, ⟨17, 10⟩, ⟨16, 10⟩, ⟨16, 10⟩, ⟨15, 10⟩, ⟨15, 10⟩] ++ List.replicate 8 ⟨14, 8⟩ ++
    List.replicate 8 ⟨13, 8⟩ ++ List.replicate 8 ⟨12, 8⟩ ++ List.replicate 8 ⟨11, 8⟩ ++
    List.replicate 8 ⟨10, 8⟩ ++ List.replicate 8 ⟨9, 8⟩ ++ List.replicate 16 ⟨8, 7⟩ ++
    List.replicate 16 ⟨7, 7⟩

def lookup (tab : List Vlc) (i : BitVec 32) : Vlc := tab.getD i.toNat ⟨0, 0⟩

namespace Port

variable {ρ : Type u} (P : Port ρ)

/-- `GETBITS` -/
def getbits (r : ρ) (num : Nat) : ρ × BitVec 32 := (P.advance r num, P.ubits r num)

def getMacroblockAddressIncrement (mpeg1 : Bool) (r : ρ) : ρ × BitVec 32 :=
  let code := P.ubits r 16
  let found (mba : Vlc) : ρ × BitVec 32 :=
    (P.advance r mba.len, (mba.value + 1) ||| .ofNat 32 (mba.len <<< 16))
  if code ≥ 4096 then found (lookup MBA_5 (P.ubits r 5 - 2))
  else if code ≥ 768 then found (lookup MBA_11 (P.ubits r 11 - 24))
  else if P.ubits r 11 = 8 then (P.advance r 11, 0xb0023)
  else if P.ubits r 11 = 15 ∧ mpeg1 then (P.advance r 11, 0xb0022)
  else (r, 0)

/-- The picture is a frame; `FRAME_PICTURE` is 3. -/
def getMacroblockModes (codingType : BitVec 3) (framePredFrameDct : Bool)
    (pictureStructure : Nat) (r : ρ) : ρ × BitVec 32 :=
  match codingType.toNat with
  | 1 =>
    let modes := P.ubits r 2
    if modes = 0 then (r, 0)
    else
      let tab := lookup MB_I (modes >>> 1)
      let r := P.advance r tab.len
      if !framePredFrameDct && pictureStructure == 3 then
        let (r, dct) := P.getbits r 1
        (r, tab.value ||| (dct * 32))
      else (r, tab.value)
  | 2 =>
    let modes := P.ubits r 6
    if modes = 0 then (r, 0)
    else
      let tab := lookup MB_P (modes >>> 1)
      let r := P.advance r tab.len
      let modes := tab.value
      if pictureStructure != 3 then
        if modes &&& 8 ≠ 0 then
          let (r, motion) := P.getbits r 2
          (r, modes ||| (motion * 64))
        else (r, modes)
      else if framePredFrameDct then
        if modes &&& 8 ≠ 0 then (r, modes ||| 128) else (r, modes)
      else
        let (r, modes) := if modes &&& 8 ≠ 0 then
            let (r, motion) := P.getbits r 2
            (r, modes ||| (motion * 64))
          else (r, modes)
        if modes &&& 3 ≠ 0 then
          let (r, dct) := P.getbits r 1
          (r, modes ||| (dct * 32))
        else (r, modes)
  | 3 =>
    let modes := P.ubits r 6
    if modes = 0 then (r, 0)
    else
      let tab := lookup MB_B modes
      let r := P.advance r tab.len
      let modes := tab.value
      let len := BitVec.ofNat 32 (tab.len <<< 16)
      if pictureStructure != 3 then
        if modes &&& 1 = 0 then
          let (r, motion) := P.getbits r 2
          (r, modes ||| (motion * 64) ||| len)
        else (r, modes ||| len)
      else if framePredFrameDct then (r, modes ||| 128 ||| len)
      else
        let (r, modes) := if modes &&& 1 = 0 then
            let (r, motion) := P.getbits r 2
            (r, modes ||| (motion * 64))
          else (r, modes)
        if modes &&& 3 ≠ 0 then
          let (r, dct) := P.getbits r 1
          (r, modes ||| (dct * 32) ||| len)
        else (r, modes ||| len)
  | 4 =>
    let (r, modes) := P.getbits r 1
    if modes = 0 then (r, 0) else (r, 0x10001)
  | _ => (r, 0)

def getMotionDelta (r : ρ) : ρ × BitVec 32 :=
  let code := P.ubits r 16
  if code &&& 0x8000 ≠ 0 then (P.advance r 1, 0x00010000)
  else
    let tab := if code &&& 0xf000 ≠ 0 ∨ code &&& 0xfc00 = 0x0c00 then lookup MV_4 (P.ubits r 4)
      else lookup MV_10 (P.ubits r 10)
    let delta := tab.value + 1
    let r := P.advance r tab.len
    let sign := P.sbits r 1
    (P.advance r 1, ((delta ^^^ sign) - sign) ||| .ofNat 32 (tab.len <<< 16))

def getDmv (r : ρ) : ρ × BitVec 32 :=
  let tab := lookup DMV_2 (P.ubits r 2)
  (P.advance r tab.len, tab.value ||| .ofNat 32 (tab.len <<< 16))

end Port

/-! ## Registers and tables -/

/-- `ipuRegs`, `ipu_cmd`, `decoder`, `vqclut` and `s_thresh`, the tables by the 64 bits that are
read at a time and the macroblocks that go out by quadwords. -/
structure Regs where
  data : BitVec 32
  dataBusy : Bool
  ecd : Bool
  scd : Bool
  mp1 : Bool
  pct : BitVec 3
  busy : Bool
  top : BitVec 32
  topbusy : Bool
  index : Nat
  pos0 : Nat
  pos1 : Nat
  current : BitVec 32
  mpeg1 : Bool
  framePredFrameDct : Bool
  codingType : BitVec 3
  pictureStructure : Nat
  niq : Nat → BitVec 64
  iq : Nat → BitVec 64
  vqclut : Nat → BitVec 64
  mb8 : Nat → BitVec 64
  rgb32 : Nat → U128
  rgb16 : Nat → U128
  thresh0 : BitVec 8
  thresh1 : BitVec 8
deriving Inhabited

structure Ipu (ρ : Type u) where
  io : ρ
  reg : Regs

/-! ## Colours -/

def byteAt (p : BitVec 32) (i : Nat) : BitVec 8 := p.extractLsb' (8 * i) 8

/-- The three colours of a pixel are below `t`. -/
def below (t : BitVec 8) (p : BitVec 32) : Bool := byteAt p 0 < t && byteAt p 1 < t && byteAt p 2 < t

def withAlpha (a : BitVec 8) (p : BitVec 32) : BitVec 32 := a ++ p.extractLsb' 0 24

/-- What the thresholds of `ipu_csc` do to a pixel. -/
def threshold (t0 t1 : BitVec 8) (p : BitVec 32) : BitVec 32 :=
  if t0 > 0 then
    if below t0 p then 0 else if below t1 p then withAlpha 0x40 p else p
  else if t1 > 0 then if below t1 p then withAlpha 0x40 p else p
  else p

def pixelAt (q : U128) (i : Nat) : BitVec 32 := q.extractLsb' (32 * i) 32

def mapPixels (f : BitVec 32 → BitVec 32) (q : U128) : U128 :=
  f (pixelAt q 3) ++ f (pixelAt q 2) ++ f (pixelAt q 1) ++ f (pixelAt q 0)

/-- `ipu_csc` without a sign, for a conversion `yuv2rgb` of the macroblock. -/
def ipuCsc (yuv2rgb : (Nat → BitVec 64) → Nat → U128) (t0 t1 : BitVec 8)
    (mb8 : Nat → BitVec 64) : Nat → U128 :=
  fun i => mapPixels (threshold t0 t1) (yuv2rgb mb8 i)

def dither (p : BitVec 32) : BitVec 16 :=
  (if byteAt p 3 = 0x40 then (1 : BitVec 1) else 0) ++ (byteAt p 2).extractLsb' 3 5 ++
    (byteAt p 1).extractLsb' 3 5 ++ (byteAt p 0).extractLsb' 3 5

def ditherQwc (q : U128) : BitVec 64 :=
  dither (pixelAt q 3) ++ dither (pixelAt q 2) ++ dither (pixelAt q 1) ++ dither (pixelAt q 0)

def ipuDither (rgb32 : Nat → U128) : Nat → U128 :=
  fun i => ditherQwc (rgb32 (2 * i + 1)) ++ ditherQwc (rgb32 (2 * i))

/-! ## The commands -/

namespace Ipu

variable {ρ : Type u} (P : Port ρ) (yuv2rgb : (Nat → BitVec 64) → Nat → U128)

/-- The loops that fill a table by 64 bits, `left` of them from `pos[0]` on. -/
def readTable (set : Regs → Nat → BitVec 64 → Regs) : Nat → Ipu ρ → Ipu ρ × Bool
  | 0, s => (s, true)
  | left + 1, s =>
    match P.getBits 8 s.io true with
    | (io, none) => ({ s with io }, false)
    | (io, some value) =>
      readTable set left ⟨io, { set s.reg s.reg.pos0 value with pos0 := s.reg.pos0 + 1 }⟩

def setNiq (r : Regs) (i : Nat) (value : BitVec 64) : Regs :=
  { r with niq := Function.update r.niq i value }

def setIq (r : Regs) (i : Nat) (value : BitVec 64) : Regs :=
  { r with iq := Function.update r.iq i value }

def setVqclut (r : Regs) (i : Nat) (value : BitVec 64) : Regs :=
  { r with vqclut := Function.update r.vqclut i value }

def setMb8 (r : Regs) (i : Nat) (value : BitVec 64) : Regs :=
  { r with mb8 := Function.update r.mb8 i value }

def ipuSETIQ (val : BitVec 32) (s : Ipu ρ) : Ipu ρ × Bool :=
  if val.getLsbD 27 then readTable P setNiq (8 - s.reg.pos0) s
  else readTable P setIq (8 - s.reg.pos0) s

def ipuSETVQ (s : Ipu ρ) : Ipu ρ × Bool := readTable P setVqclut (4 - s.reg.pos0) s

/-- The data that `VDEC` decodes. -/
def vdecData (val : BitVec 32) (s : Ipu ρ) : Ipu ρ :=
  match (val.extractLsb' 26 2).toNat with
  | 0 =>
    let reg := { s.reg with mpeg1 := s.reg.mp1 }
    let (io, data) := P.getMacroblockAddressIncrement reg.mpeg1 s.io
    ⟨io, { reg with data }⟩
  | 1 =>
    let reg := { s.reg with framePredFrameDct := true, codingType := s.reg.pct }
    let (io, data) :=
      P.getMacroblockModes reg.codingType reg.framePredFrameDct reg.pictureStructure s.io
    ⟨io, { reg with data }⟩
  | 2 =>
    let (io, data) := P.getMotionDelta s.io
    ⟨io, { s.reg with data }⟩
  | _ =>
    let (io, data) := P.getDmv s.io
    ⟨io, { s.reg with data }⟩

def vdecTop (s : Ipu ρ) : Ipu ρ × Bool :=
  match P.getBits 4 s.io false with
  | (io, none) => (⟨io, { s.reg with pos0 := 1 }⟩, false)
  | (io, some value) => (⟨io, { s.reg with top := State.bigEndian value }⟩, true)

/-- `pos[0]` is 0 or 1. -/
def ipuVDEC (val : BitVec 32) (s : Ipu ρ) : Ipu ρ × Bool :=
  if s.reg.pos0 = 0 then
    match P.fillBuffer s.io 32 with
    | (io, false) => ({ s with io }, false)
    | (io, true) =>
      let s := vdecData P val { s with io }
      vdecTop P { s with reg := { s.reg with ecd := s.reg.data == 0 } }
  else vdecTop P s

def ipuFDEC (s : Ipu ρ) : Ipu ρ × Bool :=
  match P.getBits 4 s.io false with
  | (io, none) => ({ s with io }, false)
  | (io, some value) =>
    (⟨io, { s.reg with data := State.bigEndian value, top := State.bigEndian value }⟩, true)

/-- `csc.MBC` and `csc.OFM` -/
def mbc (val : BitVec 32) : Nat := (val.extractLsb' 0 11).toNat

def ofm (val : BitVec 32) : Bool := val.getLsbD 27

/-- The conversion of the macroblock that has been read. -/
def convert (val : BitVec 32) (r : Regs) : Regs :=
  let r := { r with rgb32 := ipuCsc yuv2rgb r.thresh0 r.thresh1 r.mb8 }
  if ofm val then { r with rgb16 := ipuDither r.rgb32 } else r

/-- The quadwords of the converted macroblock. -/
def macroblock (val : BitVec 32) (r : Regs) : List U128 :=
  if ofm val then (List.range 32).map r.rgb16 else (List.range 64).map r.rgb32

/-- One macroblock after the other, `left` of them from `index` on. -/
def cscLoop (val : BitVec 32) : Nat → Ipu ρ → Ipu ρ × Bool
  | 0, s => (s, true)
  | left + 1, s =>
    match readTable P setMb8 (48 - s.reg.pos0) s with
    | (s, false) => (s, false)
    | (s, true) =>
      let reg := convert yuv2rgb val s.reg
      let (io, n) := P.write s.io ((macroblock val reg).drop reg.pos1)
      let reg := { reg with pos1 := reg.pos1 + n }
      if reg.pos1 < (macroblock val reg).length then (⟨io, reg⟩, false)
      else cscLoop val left ⟨io, { reg with index := reg.index + 1, pos0 := 0, pos1 := 0 }⟩

def ipuCSC (val : BitVec 32) (s : Ipu ρ) : Ipu ρ × Bool :=
  cscLoop P yuv2rgb val (mbc val - s.reg.index) s

def cmd (val : BitVec 32) : Nat := (val.extractLsb' 28 4).toNat

/-- `VDEC` and `FDEC` make the data and the top register busy. -/
def usesData (val : BitVec 32) : Bool := cmd val == 3 || cmd val == 4

/-- The command's turn, for the five commands. -/
def turn (s : Ipu ρ) : Ipu ρ × Bool :=
  match cmd s.reg.current with
  | 3 => ipuVDEC P s.reg.current s
  | 4 => ipuFDEC P s
  | 5 => ipuSETIQ P s.reg.current s
  | 6 => ipuSETVQ P s
  | 7 => ipuCSC P yuv2rgb s.reg.current s
  | _ => (s, false)

def finish (r : Regs) : Regs :=
  let r := if usesData r.current then { r with topbusy := false, dataBusy := false } else r
  { r with busy := false, current := 0xffffffff }

def IPUWorker (s : Ipu ρ) : Ipu ρ :=
  match turn P yuv2rgb s with
  | (s, false) => s
  | (s, true) => { s with reg := finish s.reg }

/-- A command waits while the data register holds the code at the end of a video. -/
def givesUp (s : Ipu ρ) : Bool := s.reg.busy && s.reg.dataBusy && s.reg.data == 0x000001B7

def IPUProcessInterrupt (s : Ipu ρ) : Ipu ρ :=
  let s := if s.reg.busy then IPUWorker P yuv2rgb s else s
  if givesUp s then { s with reg := { s.reg with dataBusy := false, busy := false } } else s

/-- `VDEC`, `FDEC` and `SETIQ` begin with a skip. -/
def skip (val : BitVec 32) : Nat :=
  if cmd val = 3 ∨ cmd val = 4 ∨ cmd val = 5 then (val.extractLsb' 0 6).toNat else 0

/-- `tIPU_CTRL::write` -/
def writeCtrl (ctrl : BitVec 32) (r : Regs) : Regs :=
  { r with mp1 := ctrl.getLsbD 23, pct := ctrl.extractLsb' 24 3 }

def IPUCMD_WRITE (val : BitVec 32) (s : Ipu ρ) : Ipu ρ :=
  let reg := { s.reg with
    ecd := false, scd := false, index := 0, pos0 := 0, pos1 := 0, current := val, busy := true }
  if usesData val then ⟨P.advance s.io (skip val), { reg with dataBusy := true, topbusy := true }⟩
  else if cmd val = 5 then ⟨P.advance s.io (skip val), reg⟩
  else ⟨s.io, reg⟩

end Ipu

/-! ## The FIFOs -/

/-- `IPU_Fifo_Output` -/
structure FifoOut where
  fifo : Fifo
  OFC : Nat

namespace FifoOut

def push (o : FifoOut) (q : U128) : FifoOut :=
  { o with fifo := { o.fifo with
    data := Function.update o.fifo.data o.fifo.writepos q
    writepos := (o.fifo.writepos + 4) &&& 31 } }

/-- `IPU_Fifo_Output::write`, with the number of quadwords it takes. -/
def write (o : FifoOut) (value : List U128) : FifoOut × Nat :=
  let transsize := min value.length (8 - o.OFC)
  ((value.take transsize).foldl push { o with OFC := o.OFC + transsize }, transsize)

/-- One round of the loop of `IPU_Fifo_Output::read`. -/
def pop (o : FifoOut) : U128 × FifoOut :=
  (o.fifo.data o.fifo.readpos,
    { o with fifo := { o.fifo with readpos := (o.fifo.readpos + 4) &&& 31 }, OFC := o.OFC - 1 })

end FifoOut

structure Io where
  bits : State
  out : FifoOut

/-- The commands on the FIFOs. -/
def fifos : Port Io where
  fillBuffer io n := ({ io with bits := (io.bits.fillBuffer n).1 }, (io.bits.fillBuffer n).2)
  getBits k io adv := ({ io with bits := (io.bits.getBits k adv).1 }, (io.bits.getBits k adv).2)
  ubits io n := io.bits.ubits n
  sbits io n := io.bits.sbits n
  advance io n := { io with bits := io.bits.advance n }
  write io l := ({ io with out := (io.out.write l).1 }, (io.out.write l).2)

end OmegaRed.IPU
