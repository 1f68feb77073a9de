import OmegaRed.CDVD.Rtc

/-! The registers of the CDVD controller and the buffers behind them. -/

namespace OmegaRed.CDVD.Registers

abbrev u8 := BitVec 8

inductive Buffer
  | Param
  | Result
  | Key
  | mg_buffer
  deriving DecidableEq

def Buffer.size : Buffer → Nat
  | .Param => 32
  | .Result => 32
  | .Key => 16
  | .mg_buffer => 65536

structure cdvdStruct where
  memory : Buffer → Nat → u8
  ParamC : Nat
  ParamP : Nat
  ResultC : Nat
  ResultP : Nat
  sDataIn : u8
  CBlockIndex : u8
  COffset : u8
  CReadWrite : u8
  CNumBlocks : u8
  RTC : Rtc.cdvdRTC
  mg_size : Nat
  mg_maxsize : Nat
  mg_datatype : Nat
  mg_kbit : List u8
  mg_kcon : List u8

/-- What a command gets from elsewhere: the NVM and MEC files (`none` cannot be opened), the
plugin's subchannel, tray states, the disc key, registers without a buffer, and whether the
developer console is on. -/
structure Env where
  nvm : Option (List u8)
  mec : Option (List u8)
  subQ : u8 × List u8
  tray : u8
  key : List u8
  other : u8
  DevConWriterEnabled : Bool

namespace cdvdStruct

variable (s : cdvdStruct)

/-- `none` reads outside of the buffer. -/
def read (b : Buffer) (i : Int) : Option u8 :=
  if 0 ≤ i ∧ i < b.size then some (s.memory b i.toNat) else none

def readBytes (b : Buffer) (i : Int) (n : Nat) : Option (List u8) :=
  if 0 ≤ i ∧ i + n ≤ b.size then some ((List.range n).map fun k => s.memory b (i.toNat + k))
  else none

/-- `none` writes outside of the buffer; `n` bytes may be written. -/
def writeBytes (b : Buffer) (i n : Nat) (data : List u8) : Option cdvdStruct :=
  if i + n ≤ b.size then
    some { s with
      memory := Function.update s.memory b fun k =>
        if i ≤ k ∧ k < i + n then data.getD (k - i) (s.memory b k) else s.memory b k }
  else none

def write (b : Buffer) (i : Nat) (v : u8) : Option cdvdStruct := s.writeBytes b i 1 [v]

def SetResultSize (size : Nat) : cdvdStruct :=
  { s with ResultC := size, ResultP := 0, sDataIn := s.sDataIn &&& ~~~0x40#8 }

/-- The result of a command, from its first byte on. -/
def answer (size : Nat) (vals : List u8) : Option (cdvdStruct × Bool) := do
  let s ← (s.SetResultSize size).writeBytes .Result 0 vals.length vals
  some (s, true)

/-- A read of a file, which throws before it when the file cannot be opened. -/
def fill (file : Option (List u8)) (b : Buffer) (i n : Nat) : Option (cdvdStruct × Bool) :=
  match file with
  | none => some (s, false)
  | some data => do
    let s ← s.writeBytes b i n data
    some (s, true)

/-- A write of parameters to a file. -/
def store (file : Option (List u8)) (i n : Nat) : Option (cdvdStruct × Bool) :=
  match file with
  | none => some (s, false)
  | some _ => do
    let _ ← s.readBytes .Param i n
    some (s, true)

/-- `*(u16*)&mg_buffer[i]` -/
def u16 (i : Nat) : Option Nat := do
  let low ← s.read .mg_buffer i
  let high ← s.read .mg_buffer (i + 1)
  some (low.toNat + 256 * high.toNat)

def mg_BIToffset : Option Nat := do
  let count ← s.u16 0x1A
  let flags ← s.u16 0x18
  let ofs := 0x20 + 0x10 * count
  let ofs ← if flags &&& 1 ≠ 0 then (s.read .mg_buffer ofs).map (ofs + ·.toNat) else some ofs
  some ((if flags &&& 0xF000 = 0 then ofs + 8 else ofs) + 0x20)

/-- `mecacon` commands, by `Param[0]`. -/
def mecacon (env : Env) : Option (cdvdStruct × Bool) := do
  let p ← s.read .Param 0
  match p.toNat with
  | 0x00 => (s.SetResultSize 4).fill env.mec .Result 0 4
  | 0x44 => (s.SetResultSize 1).store env.nvm 1 8
  | 0x45 => (s.SetResultSize 9).fill env.nvm .Result 1 8
  | 0xFD => s.answer 6 [0, 0x04, 0x12, 0x10, 0x01, 0x30]
  | _ => s.answer 1 [0x80]

/-- The address of an NVM command. -/
def address : Option Nat := do
  let high ← s.read .Param 0
  let low ← s.read .Param 1
  some (high.toNat * 256 + low.toNat)

def sceCdReadNVM (env : Env) : Option (cdvdStruct × Bool) := do
  let address ← s.address
  if address < 512 then
    let (s, done) ← (s.SetResultSize 3).fill env.nvm .Result 1 2
    if done then
      let tmp ← s.read .Result 1
      let v ← s.read .Result 2
      let s ← s.write .Result 1 v
      let s ← s.write .Result 2 tmp
      some (s, true)
    else some (s, false)
  else s.answer 1 [0xff]

def sceCdWriteNVM (env : Env) : Option (cdvdStruct × Bool) := do
  let s := s.SetResultSize 1
  let address ← s.address
  if address < 512 then
    let tmp ← s.read .Param 2
    let v ← s.read .Param 3
    let s ← s.write .Param 2 v
    let s ← s.write .Param 3 tmp
    s.store env.nvm 2 2
  else
    let s ← s.write .Result 0 0xff
    some (s, true)

def sceCdWriteRTC : Option (cdvdStruct × Bool) := do
  let s ← (s.SetResultSize 1).write .Result 0 0
  let _ ← s.read .Param (s.ParamP - 7)
  let _ ← s.read .Param (s.ParamP - 6)
  let _ ← s.read .Param (s.ParamP - 5)
  let _ ← s.read .Param (s.ParamP - 3)
  let _ ← s.read .Param (s.ParamP - 2)
  let _ ← s.read .Param (s.ParamP - 1)
  let RTC := Rtc.written (fun i => s.memory .Param i.toNat) (BitVec.ofNat 8 s.ParamP)
  some ({ s with RTC := RTC }, true)

/-- A string that the console prints ends inside of the buffer. -/
def readString (b : Buffer) (i : Nat) : Option Unit :=
  if (List.range' i (b.size - i)).any fun k => s.memory b k == 0 then some () else none

def readRegionParams (env : Env) : Option (cdvdStruct × Bool) := do
  let (s, done) ← (s.SetResultSize 15).fill env.mec .Result 1 4
  if done then
    let (s, done) ← s.fill env.nvm .Result 3 8
    if done then
      let zone ← s.read .Result 1
      if env.DevConWriterEnabled then s.readString .Result 3
      let s ← s.writeBytes .Result 1 2 [1 <<< zone.toNat, 0]
      let s ← s.writeBytes .Result 11 4 [0, 0, 0, 0]
      some (s, true)
    else some (s, false)
  else some (s, false)

/-- `COffset` has no block `CBlockIndex`. -/
def pastConfig : Bool :=
  s.COffset == 0 && s.CBlockIndex.toNat ≥ 4 || s.COffset == 1 && s.CBlockIndex.toNat ≥ 2 ||
    s.COffset == 2 && s.CBlockIndex.toNat ≥ 7

def cdvdReadConfig (env : Env) : Option (cdvdStruct × Bool) := do
  let s := s.SetResultSize 16
  if s.CReadWrite ≠ 0 then
    let s ← s.write .Result 0 0x80
    let s ← s.writeBytes .Result 1 15 (List.replicate 15 0)
    some (s, true)
  else if s.CBlockIndex.toNat ≥ s.CNumBlocks.toNat then some (s, true)
  else if s.pastConfig then
    let s ← s.writeBytes .Result 0 16 (List.replicate 16 0)
    some (s, true)
  else ({ s with CBlockIndex := s.CBlockIndex + 1 } : cdvdStruct).fill env.nvm .Result 0 16

def cdvdWriteConfig (env : Env) : Option (cdvdStruct × Bool) :=
  let s := s.SetResultSize 1
  if s.CReadWrite ≠ 1 ∨ s.CBlockIndex.toNat ≥ s.CNumBlocks.toNat then some (s, true)
  else if s.pastConfig then some (s, true)
  else { s with CBlockIndex := s.CBlockIndex + 1 }.store env.nvm 0 16

def CdOpenConfig : Option (cdvdStruct × Bool) := do
  let s := s.SetResultSize 1
  let readWrite ← s.read .Param 0
  let offset ← s.read .Param 1
  let numBlocks ← s.read .Param 2
  let s ← s.write .Result 0 0
  some ({ s with
    CReadWrite := readWrite
    COffset := offset
    CNumBlocks := numBlocks
    CBlockIndex := 0 }, true)

def sceMgWriteData : Option (cdvdStruct × Bool) := do
  let s := s.SetResultSize 1
  if s.mg_size + s.ParamC > s.mg_maxsize then
    let s ← s.write .Result 0 0x80
    some (s, true)
  else
    let data ← s.readBytes .Param 0 s.ParamC
    let s ← s.writeBytes .mg_buffer s.mg_size s.ParamC data
    let s ← { s with mg_size := s.mg_size + s.ParamC }.write .Result 0 0
    some (s, true)

/-- The second `memcpy` is one of overlapping ranges, to lower addresses. -/
def sceMgReadData : Option (cdvdStruct × Bool) := do
  let s := s.SetResultSize (min 16 s.mg_size)
  let data ← s.readBytes .mg_buffer 0 s.ResultC
  let s ← s.writeBytes .Result 0 s.ResultC data
  let rest ← s.readBytes .mg_buffer s.ResultC (s.mg_size - s.ResultC)
  let s ← s.writeBytes .mg_buffer 0 (s.mg_size - s.ResultC) rest
  some ({ s with mg_size := s.mg_size - s.ResultC }, true)

def fail_pol_cal : Option (cdvdStruct × Bool) := do
  let s ← s.write .Result 0 0x80
  some (s, true)

/-- `__mechacon_auth_0x88` and `0x8F` -/
def auth_0x8F : Option (cdvdStruct × Bool) := do
  let s := s.SetResultSize 1
  if s.mg_datatype = 1 then
    let hdrSize ← s.u16 0x14
    if s.mg_maxsize ≠ s.mg_size ∨ s.mg_size < 0x20 ∨ s.mg_size ≠ hdrSize then s.fail_pol_cal
    else
      let bit_ofs ← s.mg_BIToffset
      let keys ← s.readBytes .mg_buffer (bit_ofs - 0x20) 0x20
      let s := { s with mg_kbit := keys.take 16, mg_kcon := keys.drop 16 }
      let v ← s.readBytes .mg_buffer (bit_ofs + 4) 4
      let count := (v.getD 0 0).toNat
      if v.getD 1 0 ≠ 0 ∨ v.getD 2 0 ≠ 0 ∨ v.getD 3 0 ≠ 0 ∨
          count * 16 + bit_ofs + 8 + 16 ≠ hdrSize then s.fail_pol_cal
      else
        let s ← s.write .Result 0 0
        some (s, true)
  else
    let s ← s.write .Result 0 0
    some (s, true)

def sceMgWriteHeaderStart : Option (cdvdStruct × Bool) := do
  let s := s.SetResultSize 1
  let low ← s.read .Param 1
  let high ← s.read .Param 2
  let s ← s.write .Result 0 0
  some ({ s with mg_size := 0, mg_datatype := 1, mg_maxsize := low.toNat + 256 * high.toNat }, true)

def sceMgReadBITLength : Option (cdvdStruct × Bool) := do
  let s := s.SetResultSize 3
  let bit_ofs ← s.mg_BIToffset
  let count ← s.read .mg_buffer (bit_ofs + 4)
  let table ← s.readBytes .mg_buffer bit_ofs (8 + 16 * count.toNat)
  let s ← s.writeBytes .mg_buffer 0 (8 + 16 * count.toNat) table
  let count ← s.read .mg_buffer 4
  let s := { s with mg_maxsize := 0, mg_size := 8 + 16 * count.toNat }
  let s ← s.writeBytes .Result 0 3
    [if s.mg_datatype = 1 then 0 else 0x80, BitVec.ofNat 8 s.mg_size,
      BitVec.ofNat 8 (s.mg_size / 256)]
  some (s, true)

/-- The length in `Param[0]` and `Param[1]`. -/
def length : Option Nat := do
  let low ← s.read .Param 0
  let high ← s.read .Param 1
  some (low.toNat + 256 * high.toNat)

def sceMgWriteDatainLength : Option (cdvdStruct × Bool) := do
  let s := s.SetResultSize 1
  let length ← s.length
  let s ← s.write .Result 0 0
  some ({ s with mg_size := 0, mg_datatype := 0, mg_maxsize := length }, true)

def sceMgWriteDataoutLength : Option (cdvdStruct × Bool) := do
  let s := s.SetResultSize 1
  let length ← s.length
  if length = s.mg_size ∧ s.mg_datatype = 0 then
    let s ← s.write .Result 0 0
    some ({ s with mg_maxsize := 0 }, true)
  else
    let s ← s.write .Result 0 0x80
    some (s, true)

/-- `sceMgReadKbit` and its kin: half of a key. -/
def readKeyHalf (key : List u8) : Option (cdvdStruct × Bool) := do
  let s ← (s.SetResultSize 9).write .Result 0 0
  let s ← s.writeBytes .Result 1 8 key
  some (s, true)

/-- The commands of `cdvdWrite16`; `false` is a throw. -/
def command (env : Env) (rt : Nat) : Option (cdvdStruct × Bool) :=
  match rt with
  | 0x02 => do
    let s ← (s.SetResultSize 11).writeBytes .Result 1 10 env.subQ.2
    let s ← s.write .Result 0 env.subQ.1
    some (s, true)
  | 0x03 => s.mecacon env
  | 0x05 => s.answer 1 [env.tray]
  | 0x06 => do
    let _ ← s.read .Param 0
    s.answer 1 [env.tray]
  | 0x08 => s.answer 8 ((Rtc.sceCdReadRTC s.RTC).map (BitVec.ofNat 8))
  | 0x09 => s.sceCdWriteRTC
  | 0x0A => s.sceCdReadNVM env
  | 0x0B => s.sceCdWriteNVM env
  | 0x12 => (s.SetResultSize 9).fill env.nvm .Result 1 8
  | 0x13 => (s.SetResultSize 1).store env.nvm 1 8
  | 0x15 => s.answer 1 [5]
  | 0x17 => do
    let _ ← s.read .Param 0
    (s.SetResultSize 9).fill env.nvm .Result 1 8
  | 0x18 => do
    let _ ← s.read .Param 0
    (s.SetResultSize 1).store env.nvm 1 8
  | 0x1A => s.answer 1 [1]
  | 0x1E => s.answer 5 [0x00, 0x14, 0x00, 0x00, 0x00]
  | 0x20 => s.answer 3 [0x00, 0x01, 0x00]
  | 0x22 => s.answer 10 [0, 0, 0, 0, 0, 0, 0, 0, 0, 0]
  | 0x32 => s.answer 2 [0]
  | 0x36 => s.readRegionParams env
  | 0x37 => (s.SetResultSize 9).fill env.nvm .Result 1 8
  | 0x38 => (s.SetResultSize 1).store env.nvm 0 8
  | 0x3E => (s.SetResultSize 1).store env.nvm 2 8
  | 0x40 => s.CdOpenConfig
  | 0x41 => s.cdvdReadConfig env
  | 0x42 => s.cdvdWriteConfig env
  | 0x43 =>
    { s with CReadWrite := 0, COffset := 0, CNumBlocks := 0, CBlockIndex := 0 }.answer 1 [0]
  | 0x80 => { s with mg_datatype := 0 }.answer 1 [0]
  | 0x81 => { s with mg_datatype := 0 }.answer 1 [0]
  | 0x84 =>
    s.answer 13 [0, 0x21, 0xdc, 0x31, 0x96, 0xce, 0x72, 0xe0, 0xc8, 0x69, 0xda, 0x34, 0x9b]
  | 0x85 =>
    s.answer 13 [0, 0xeb, 0x01, 0xc7, 0xa9, 0x3f, 0x9c, 0x5b, 0x19, 0x31, 0xa0, 0xb3, 0xa3]
  | 0x88 => s.auth_0x8F
  | 0x8D => s.sceMgWriteData
  | 0x8E => s.sceMgReadData
  | 0x8F => s.auth_0x8F
  | 0x90 => s.sceMgWriteHeaderStart
  | 0x91 => s.sceMgReadBITLength
  | 0x92 => s.sceMgWriteDatainLength
  | 0x93 => s.sceMgWriteDataoutLength
  | 0x94 => s.readKeyHalf s.mg_kbit
  | 0x95 => s.readKeyHalf (s.mg_kbit.drop 8)
  | 0x96 => s.readKeyHalf s.mg_kcon
  | 0x97 => s.readKeyHalf (s.mg_kcon.drop 8)
  -- power off, audio out, LEDs and the like, and every command without a case
  | _ => s.answer 1 [0]

/-- SCOMMAND -/
def cdvdWrite16 (env : Env) (rt : Nat) : Option cdvdStruct := do
  let s ← s.write .Result 0 0
  let (s, done) ← s.command env rt
  some (if done then { s with ParamP := 0, ParamC := 0 } else s)

/-- NCOMMAND: what it does with the buffers. -/
def cdvdWrite04 (env : Env) (rt : Nat) : Option cdvdStruct := do
  let s ← match rt with
    | 0x05 => (s.readBytes .Param 0 4).map fun _ => s
    | 0x06 => (s.readBytes .Param 0 11).map fun _ => s
    | 0x07 => (s.readBytes .Param 0 11).map fun _ => s
    | 0x08 => (s.readBytes .Param 0 11).map fun _ => s
    | 0x09 => (s.readBytes .Param 0 2).map fun _ => s
    | 0x0C => do
      let _ ← s.readBytes .Param 0 7
      s.writeBytes .Key 0 16 env.key
    | 0x0E => (s.readBytes .Param 0 11).map fun _ => s
    | 0x0F => (s.readBytes .Param 0 1).map fun _ => s
    | _ => some s
  some { s with ParamP := 0, ParamC := 0 }

/-- NDATAIN and SDATAIN -/
def cdvdWrite17 (rt : u8) : Option cdvdStruct :=
  if s.ParamP < 32 then do
    let s ← s.write .Param s.ParamP rt
    some { s with ParamP := s.ParamP + 1, ParamC := s.ParamC + 1 }
  else some s

/-- SDATAOUT -/
def cdvdRead18 : Option (cdvdStruct × u8) :=
  if s.sDataIn &&& 0x40 = 0 ∧ s.ResultP < s.ResultC then do
    let p := s.ResultP + 1
    let v ← s.read .Result (p - 1 : Nat)
    some ({ s with
      ResultP := p
      sDataIn := if p ≥ s.ResultC then s.sDataIn ||| 0x40 else s.sDataIn }, v)
  else some (s, 0)

/-- `cdvdReset`: zeros, and the date. -/
def reset (RTC : Rtc.cdvdRTC) : cdvdStruct where
  memory _ _ := 0
  ParamC := 0
  ParamP := 0
  ResultC := 0
  ResultP := 0
  sDataIn := 0x40
  CBlockIndex := 0
  COffset := 0
  CReadWrite := 0
  CNumBlocks := 0
  RTC := RTC
  mg_size := 0
  mg_maxsize := 0
  mg_datatype := 0
  mg_kbit := List.replicate 16 0
  mg_kcon := List.replicate 16 0

def cdvdRead (env : Env) (key : Nat) : Option (cdvdStruct × u8) :=
  if key = 0x18 then s.cdvdRead18
  else if 0x20 ≤ key ∧ key ≤ 0x24 then (s.read .Key (key - 0x20)).map fun v => (s, v)
  else if 0x28 ≤ key ∧ key ≤ 0x2C then (s.read .Key (key - 0x23)).map fun v => (s, v)
  else if 0x30 ≤ key ∧ key ≤ 0x34 then (s.read .Key (key - 0x26)).map fun v => (s, v)
  else if key = 0x38 then (s.read .Key 15).map fun v => (s, v)
  else some (s, env.other)

/-- `0x14` goes to the mode of the PS1, with a reset. -/
def cdvdWrite (env : Env) (key : Nat) (rt : u8) : Option cdvdStruct :=
  match key with
  | 0x04 => s.cdvdWrite04 env rt.toNat
  | 0x05 => s.cdvdWrite17 rt
  | 0x14 => some (reset s.RTC)
  | 0x16 => s.cdvdWrite16 env rt.toNat
  | 0x17 => s.cdvdWrite17 rt
  | _ => some s

end cdvdStruct

/-- What the guest does. -/
inductive Access
  | read (key : Nat)
  | write (key : Nat) (rt : u8)

def step (s : cdvdStruct) (a : Access × Env) : Option (cdvdStruct × List u8) :=
  match a.1 with
  | .read key => (s.cdvdRead a.2 key).map fun p => (p.1, [p.2])
  | .write key rt => (s.cdvdWrite a.2 key rt).map fun s => (s, [])

/-- The state after a run, and the values that were read. -/
def run (s : cdvdStruct) : List (Access × Env) → Option (cdvdStruct × List u8)
  | [] => some (s, [])
  | a :: as => do
    let (s, v) ← step s a
    let (s, vs) ← run s as
    some (s, v ++ vs)

end OmegaRed.CDVD.Registers
